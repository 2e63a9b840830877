import Linux011.ChrDrv.ConsoleWindow

/-!
# Console — whatever is written

Two consoles that show the same and whose variables agree go on doing so,
whatever is written to them and whichever of the two ways their video cards
scroll.

* `Same` — both are safe, show the same, and their variables agree;
* `Same.conWrite` — and after one more character;
* `fast_scroll` — for every stream: the same window and the same variables;
* `never_outside` — for every stream after `con_init`: the variables agree with
  each other, and no word is written outside video memory.

A console is the same as itself, so that safety is a case of the relation.
-/

namespace Linux011.ChrDrv

open Lib

namespace Console

/-- Both are safe, show the same, and their variables agree. -/
structure Same (s t : Con) : Prop where
  vars  : t.toVars = s.toVars
  shows : ∃ f, Shows s f ∧ Shows t f

variable {s t : Con}

theorem Same.left (h : Same s t) : Safe s := h.shows.elim fun _ hf => hf.1.toSafe

theorem Same.right (h : Same s t) : Safe t := h.shows.elim fun _ hf => hf.2.toSafe

theorem Same.cols (h : Same s t) : t.videoNumColumns = s.videoNumColumns := congrArg (·.videoNumColumns) h.vars

theorem Same.lines (h : Same s t) : t.videoNumLines = s.videoNumLines := congrArg (·.videoNumLines) h.vars

theorem Same.x (h : Same s t) : t.x = s.x := congrArg (·.x) h.vars

theorem Same.y (h : Same s t) : t.y = s.y := congrArg (·.y) h.vars

theorem Same.top (h : Same s t) : t.top = s.top := congrArg (·.top) h.vars

theorem Same.bottom (h : Same s t) : t.bottom = s.bottom := congrArg (·.bottom) h.vars

/-! ## Routines -/

/-- A routine that does to the window what its variables say. -/
theorem Same.routine (h : Same s t) {op : Con → Con} (change : Vars → (Nat → Word) → Nat → Word) (P : Vars → Prop)
    (hp : P s.toVars) (hvars : ∀ s, (op s).toVars = s.toVars)
    (hshows : ∀ s f, P s.toVars → Shows s f → Shows (op s) (change s.toVars f)) : Same (op s) (op t) := by
  obtain ⟨hv, f, hs, ht⟩ := h
  refine ⟨by rw [hvars, hvars, hv], change s.toVars f, hshows s f hp hs, ?_⟩
  rw [← hv] at hp ⊢
  exact hshows t f hp ht

theorem Same.move (h : Same s t) {x y p q : Nat} (hx : x ≤ s.videoNumColumns) (hy : y < s.videoNumLines)
    (hp : p = s.origin + 2 * (y * s.videoNumColumns + x)) (hq : q = t.origin + 2 * (y * s.videoNumColumns + x)) :
    Same { s with x := x, y := y, pos := p } { t with x := x, y := y, pos := q } := by
  have hcols := h.cols
  have hlines := h.lines
  obtain ⟨hv, f, hs, ht⟩ := h
  refine ⟨by dsimp only; rw [hv], f, hs.move hx hy hp, ht.move ?_ ?_ ?_⟩
  · rw [hcols]
    exact hx
  · rw [hlines]
    exact hy
  · rw [hcols]
    exact hq

/-- Only variables change, none that the window depends on; `top` and `bottom`
remain lines, and `npar` a parameter. -/
theorem Same.update (h : Same s t) (v : Vars → Vars)
    (hkeep : ∀ k, (v k).videoNumColumns = k.videoNumColumns ∧ (v k).videoNumLines = k.videoNumLines ∧
      (v k).x = k.x ∧ (v k).y = k.y)
    (hregion : (v s.toVars).top < (v s.toVars).bottom) (hbottom : (v s.toVars).bottom ≤ s.videoNumLines)
    (hnpar : (v s.toVars).npar < npars) : Same { s with toVars := v s.toVars } { t with toVars := v t.toVars } := by
  have hshows : ∀ (s : Con) f, Shows s f → (v s.toVars).top < (v s.toVars).bottom →
      (v s.toVars).bottom ≤ s.videoNumLines → (v s.toVars).npar < npars →
      Shows { s with toVars := v s.toVars } f := by
    intro s f hs hr hb hn
    obtain ⟨hc, hl, hx, hy⟩ := hkeep s.toVars
    refine ⟨⟨?_, ?_, ?_, ?_, ?_, hr, ?_, hs.start, hs.even, ?_, hs.memEnd, hn, hs.written⟩, ?_⟩ <;> dsimp only
    · rw [hc]
      exact hs.columns
    · rw [hc]
      exact hs.colsPos
    · rw [hx, hc]
      exact hs.x
    · rw [hy, hl]
      exact hs.y
    · rw [hy, hx, hc]
      exact hs.pos
    · rw [hl]
      exact hb
    · rw [hl, hc]
      exact hs.scrEnd
    · rw [hl, hc]
      exact hs.cell
  have hlines := h.lines
  obtain ⟨hv, f, hs, ht⟩ := h
  refine ⟨by dsimp only; rw [hv], f, hshows s f hs hregion hbottom hnpar, hshows t f ht ?_ ?_ ?_⟩
  · rw [hv]
    exact hregion
  · rw [hlines, hv]
    exact hbottom
  · rw [hv]
    exact hnpar

/-- Variables change that have nothing to do with the window. -/
theorem Same.note (h : Same s t) (v : Vars → Vars)
    (hkeep : ∀ k, (v k).videoNumColumns = k.videoNumColumns ∧ (v k).videoNumLines = k.videoNumLines ∧
      (v k).x = k.x ∧ (v k).y = k.y)
    (hrest : ∀ k, (v k).top = k.top ∧ (v k).bottom = k.bottom ∧ (v k).npar = k.npar) :
    Same { s with toVars := v s.toVars } { t with toVars := v t.toVars } := by
  obtain ⟨ht, hb, hn⟩ := hrest s.toVars
  refine h.update v hkeep ?_ ?_ ?_
  · rw [ht, hb]
    exact h.left.region
  · rw [hb]
    exact h.left.bottom
  · rw [hn]
    exact h.left.npar

theorem vars_scrup (s : Con) : (scrup s).toVars = s.toVars := by
  unfold scrup scrupOrigin scrupCopy
  dsimp only
  split_ifs <;> rfl

theorem x_lf (s : Con) : (lf s).x = s.x := by
  unfold lf
  split
  · rfl
  · exact congrArg (·.x) (vars_scrup s)

theorem cols_lf (s : Con) : (lf s).videoNumColumns = s.videoNumColumns := by
  unfold lf
  split
  · rfl
  · exact congrArg (·.videoNumColumns) (vars_scrup s)

theorem Same.scrup (h : Same s t) : Same (scrup s) (scrup t) :=
  h.routine (fun k f => shiftDown (k.top * k.videoNumColumns) (k.bottom * k.videoNumColumns) k.videoNumColumns
    k.videoEraseChar f) (fun _ => True) trivial vars_scrup fun _ _ _ hs => hs.scrup

theorem Same.scrdown (h : Same s t) : Same (scrdown s) (scrdown t) :=
  h.routine (fun k f => shiftUp (k.top * k.videoNumColumns) (k.bottom * k.videoNumColumns) k.videoNumColumns
    k.videoEraseChar f) (fun _ => True) trivial (fun _ => rfl) fun _ _ _ hs => hs.scrdown

theorem Same.insertChar (h : Same s t) : Same (insertChar s) (insertChar t) :=
  h.routine (fun k f => shiftUp (k.y * k.videoNumColumns + k.x) (k.y * k.videoNumColumns + k.videoNumColumns) 1
    k.videoEraseChar f) (fun _ => True) trivial (fun _ => rfl) fun _ _ _ hs => hs.insertChar

theorem Same.deleteChar (h : Same s t) : Same (deleteChar s) (deleteChar t) := by
  by_cases hx : s.x ≥ s.videoNumColumns
  · unfold Console.deleteChar
    rw [h.x, h.cols, if_pos hx, if_pos hx]
    exact h
  · refine h.routine (fun k f => shiftDown (k.y * k.videoNumColumns + k.x) (k.y * k.videoNumColumns + k.videoNumColumns)
      1 k.videoEraseChar f) (fun k => k.x < k.videoNumColumns) (Nat.lt_of_not_le hx) ?_ fun _ _ hx hs => hs.deleteChar hx
    intro s
    unfold Console.deleteChar
    split <;> rfl

/-- Cells that the variables name are erased. -/
theorem Same.erase (h : Same s t) {i n a b : Nat} (hi : i + n ≤ s.videoNumLines * s.videoNumColumns)
    (ha : a = s.origin + 2 * i) (hb : b = t.origin + 2 * i) : Same (erase s a n) (erase t b n) := by
  have hsize : i + n ≤ t.videoNumLines * t.videoNumColumns := by
    rw [h.lines, h.cols]
    exact hi
  obtain ⟨hv, f, hs, ht⟩ := h
  subst ha hb
  refine ⟨hv, _, hs.erase hi, ?_⟩
  rw [← hv]
  exact ht.erase hsize

theorem Same.store (h : Same s t) {i a b : Nat} (hi : i < s.videoNumLines * s.videoNumColumns)
    (ha : a = s.origin + 2 * i) (hb : b = t.origin + 2 * i) (w : Word) :
    Same { s with mem := s.mem.store a w } { t with mem := t.mem.store b w } := by
  have hsize : i < t.videoNumLines * t.videoNumColumns := by
    rw [h.lines, h.cols]
    exact hi
  obtain ⟨hv, f, hs, ht⟩ := h
  subst ha hb
  exact ⟨hv, _, hs.store hi w, ht.store hsize w⟩

theorem Same.gotoxy (h : Same s t) (newX newY : Vars → Nat) :
    Same (gotoxy s (newX s.toVars) (newY s.toVars)) (gotoxy t (newX t.toVars) (newY t.toVars)) := by
  have hsize := mul_sizeRow s (newY s.toVars)
  obtain ⟨k, vt, ms, me, o, se, q, m⟩ := t
  obtain rfl : k = s.toVars := h.vars
  unfold Console.gotoxy
  dsimp only
  split
  · exact h
  · next hin =>
    rw [not_or] at hin
    exact h.move (by omega) (by omega) (by omega) (by dsimp only; omega)

/-- Where the cursor of the other console is. -/
theorem Same.pos (h : Same s t) : t.pos = t.origin + 2 * (s.y * s.videoNumColumns + s.x) := by
  rw [← h.x, ← h.y, ← h.cols]
  exact h.right.pos

theorem Same.lf (h : Same s t) : Same (lf s) (lf t) := by
  have hpos := h.left.pos
  have hqos := h.pos
  have hb := h.left.bottom
  have hrow : s.videoSizeRow = 2 * s.videoNumColumns := Nat.mul_comm _ _
  have hsucc : (s.y + 1) * s.videoNumColumns = s.y * s.videoNumColumns + s.videoNumColumns := Nat.succ_mul _ _
  have hscroll := h.scrup
  obtain ⟨k, vt, ms, me, o, se, q, m⟩ := t
  obtain rfl : k = s.toVars := h.vars
  unfold Console.lf
  dsimp only at hqos ⊢
  split
  · exact h.move (x := s.x) (y := s.y + 1) h.left.x (by omega) (by omega) (by dsimp only; omega)
  · exact hscroll

theorem Same.ri (h : Same s t) : Same (ri s) (ri t) := by
  have hpos := h.left.pos
  have hqos := h.pos
  have hlt := h.left.y
  have hrow : s.videoSizeRow = 2 * s.videoNumColumns := Nat.mul_comm _ _
  have hscroll := h.scrdown
  obtain ⟨k, vt, ms, me, o, se, q, m⟩ := t
  obtain rfl : k = s.toVars := h.vars
  unfold Console.ri
  dsimp only at hqos ⊢
  split
  · next hy =>
    have hpred : s.y * s.videoNumColumns = (s.y - 1) * s.videoNumColumns + s.videoNumColumns := by
      rw [← Nat.succ_mul, Nat.succ_eq_add_one, Nat.sub_add_cancel (by omega)]
    exact h.move (x := s.x) (y := s.y - 1) h.left.x (by omega) (by omega) (by dsimp only; omega)
  · exact hscroll

/-- The cursor within its line. -/
theorem Same.column (h : Same s t) {x p q : Nat} (hx : x ≤ s.videoNumColumns) (hp : p + 2 * s.x = s.pos + 2 * x)
    (hq : q + 2 * s.x = t.pos + 2 * x) : Same { s with x := x, pos := p } { t with x := x, pos := q } := by
  have hpos := h.left.pos
  have hqos := h.pos
  obtain ⟨k, vt, ms, me, o, se, r, m⟩ := t
  obtain rfl : k = s.toVars := h.vars
  dsimp only at hqos hq
  exact h.move (x := x) (y := s.y) hx h.left.y (by omega) (by dsimp only; omega)

theorem Same.cr (h : Same s t) : Same (cr s) (cr t) := by
  have hpos := h.left.pos
  have hqos := h.pos
  unfold Console.cr
  rw [h.x]
  exact h.column (Nat.zero_le _) (by omega) (by omega)

/-- Past the last column, the cursor goes to the next line. -/
theorem Same.wrap (h : Same s t) {x p q : Nat} (hx : s.videoNumColumns ≤ x) (hle : x ≤ 2 * s.videoNumColumns)
    (hp : p + 2 * s.x = s.pos + 2 * x) (hq : q + 2 * s.x = t.pos + 2 * x) :
    Same (wrap { s with x := x, pos := p }) (wrap { t with x := x, pos := q }) := by
  have hpos := h.left.pos
  have hqos := h.pos
  have hrow : s.videoSizeRow = 2 * s.videoNumColumns := Nat.mul_comm _ _
  have hcolumn := h.column (x := x - s.videoNumColumns) (p := p - s.videoSizeRow) (q := q - s.videoSizeRow)
    (by omega) (by omega) (by omega)
  obtain ⟨k, vt, ms, me, o, se, r, m⟩ := t
  obtain rfl : k = s.toVars := h.vars
  exact hcolumn.lf

theorem Same.del (h : Same s t) : Same (del s) (del t) := by
  have hpos := h.left.pos
  have hqos := h.pos
  have hrow := h.left.cursorRow
  have hx := h.left.x
  unfold Console.del
  rw [h.x]
  split
  · have hcolumn := h.column (x := s.x - 1) (p := s.pos - 2) (q := t.pos - 2) (by omega) (by omega) (by omega)
    have hstore := hcolumn.store (i := s.y * s.videoNumColumns + (s.x - 1)) (a := s.pos - 2) (b := t.pos - 2)
      (by dsimp only; omega) (by dsimp only; omega) (by dsimp only; omega) s.videoEraseChar
    obtain ⟨k, vt, ms, me, o, se, r, m⟩ := t
    obtain rfl : k = s.toVars := h.vars
    exact hstore
  · exact h

/-- A character is put where there is a column. -/
theorem Same.put (h : Same s t) (hx : s.x < s.videoNumColumns) (c : BitVec 8) : Same (put s c) (put t c) := by
  have hpos := h.left.pos
  have hqos := h.pos
  have hrow := h.left.cursorRow
  have hstore := h.store (i := s.y * s.videoNumColumns + s.x) (a := s.pos) (b := t.pos) (by omega) hpos hqos
    (s.attr ++ c)
  have hcolumn := hstore.column (x := s.x + 1) (p := s.pos + 2) (q := t.pos + 2) hx (by dsimp only; omega)
    (by dsimp only; omega)
  obtain ⟨k, vt, ms, me, o, se, r, m⟩ := t
  obtain rfl : k = s.toVars := h.vars
  exact hcolumn

/-! ## Control sequences -/

theorem Same.csiJ (h : Same s t) (n : Nat) : Same (csiJ s n) (csiJ t n) := by
  have hpos := h.left.pos
  have hqos := h.pos
  have hrow := h.left.cursorRow
  have hx := h.left.x
  have hend := h.left.scrEnd
  have hend' := h.right.scrEnd
  rw [h.lines, h.cols] at hend'
  unfold Console.csiJ
  split
  · rw [show (t.scrEnd - t.pos) / 2 = (s.scrEnd - s.pos) / 2 by omega]
    exact h.erase (i := s.y * s.videoNumColumns + s.x) (by omega) hpos hqos
  · rw [show (t.pos - t.origin) / 2 = (s.pos - s.origin) / 2 by omega]
    exact h.erase (i := 0) (by omega) (by omega) (by omega)
  · rw [h.lines, h.cols, Nat.mul_comm s.videoNumColumns]
    exact h.erase (i := 0) (by omega) (by omega) (by omega)
  · exact h

theorem Same.csiK (h : Same s t) (n : Nat) : Same (csiK s n) (csiK t n) := by
  have hpos := h.left.pos
  have hqos := h.pos
  have hrow := h.left.cursorRow
  have hx := h.left.x
  unfold Console.csiK
  rw [h.x, h.cols]
  split
  · split
    · exact h
    · exact h.erase (i := s.y * s.videoNumColumns + s.x) (by omega) hpos hqos
  · refine h.erase (i := s.y * s.videoNumColumns) ?_ (by omega) (by omega)
    split <;> omega
  · exact h.erase (i := s.y * s.videoNumColumns) (by omega) (by omega) (by omega)
  · exact h

/-- A routine on the lines from the cursor to the end of the screen. -/
theorem Same.below (h : Same s t) {op : Con → Con} (hvars : ∀ s, (op s).toVars = s.toVars)
    (hop : ∀ {s t}, Same s t → Same (op s) (op t)) :
    Same { op { s with top := s.y, bottom := s.videoNumLines } with top := s.top, bottom := s.bottom }
      { op { t with top := t.y, bottom := t.videoNumLines } with top := t.top, bottom := t.bottom } := by
  have hbelow := hop (h.update (fun k => { k with top := k.y, bottom := k.videoNumLines })
    (fun _ => ⟨rfl, rfl, rfl, rfl⟩) h.left.y (Nat.le_refl _) h.left.npar)
  have hlines := congrArg (·.videoNumLines) (hvars { s with top := s.y, bottom := s.videoNumLines })
  have hnpar := congrArg (·.npar) (hvars { s with top := s.y, bottom := s.videoNumLines })
  have hback := hbelow.update (fun k => { k with top := s.top, bottom := s.bottom })
    (fun _ => ⟨rfl, rfl, rfl, rfl⟩) h.left.region (h.left.bottom.trans (Nat.le_of_eq hlines.symm))
    (hnpar.trans_lt h.left.npar)
  rw [h.top, h.bottom]
  exact hback

theorem Same.insertLine (h : Same s t) : Same (insertLine s) (insertLine t) :=
  h.below (fun _ => rfl) Same.scrdown

theorem Same.deleteLine (h : Same s t) : Same (deleteLine s) (deleteLine t) :=
  h.below vars_scrup Same.scrup

theorem Same.iterate (h : Same s t) {op : Con → Con} (hop : ∀ {s t}, Same s t → Same (op s) (op t)) (n : Nat) :
    Same (op^[n] s) (op^[n] t) := by
  induction n generalizing s t with
  | zero => exact h
  | succ n ih => exact ih (hop h)

theorem Same.csiM (h : Same s t) : Same (csiM s) (csiM t) :=
  h.note (fun k => { k with attr := ((List.range (k.npar + 1)).map k.par).foldl attrOf k.attr })
    (fun _ => ⟨rfl, rfl, rfl, rfl⟩) fun _ => ⟨rfl, rfl, rfl⟩

theorem Same.saveCur (h : Same s t) : Same (saveCur s) (saveCur t) :=
  h.note (fun k => { k with savedX := k.x, savedY := k.y }) (fun _ => ⟨rfl, rfl, rfl, rfl⟩) fun _ => ⟨rfl, rfl, rfl⟩

theorem Same.restoreCur (h : Same s t) : Same (restoreCur s) (restoreCur t) :=
  h.gotoxy (·.savedX) (·.savedY)

theorem Same.setState (h : Same s t) (n : Nat) : Same { s with state := n } { t with state := n } :=
  h.note (fun k => { k with state := n }) (fun _ => ⟨rfl, rfl, rfl, rfl⟩) fun _ => ⟨rfl, rfl, rfl⟩

theorem Same.setPar (h : Same s t) (par : Vars → Nat → Nat) :
    Same { s with par := par s.toVars } { t with par := par t.toVars } :=
  h.note (fun k => { k with par := par k }) (fun _ => ⟨rfl, rfl, rfl, rfl⟩) fun _ => ⟨rfl, rfl, rfl⟩

theorem Same.setRegion (h : Same s t) :
    Same (if s.par 0 < s.par 1 ∧ s.par 1 ≤ s.videoNumLines then { s with top := s.par 0, bottom := s.par 1 } else s)
      (if t.par 0 < t.par 1 ∧ t.par 1 ≤ t.videoNumLines then { t with top := t.par 0, bottom := t.par 1 } else t) := by
  obtain ⟨k, vt, ms, me, o, se, q, m⟩ := t
  obtain rfl : k = s.toVars := h.vars
  dsimp only
  split
  · next hr =>
    exact h.update (fun k => { k with top := k.par 0, bottom := k.par 1 }) (fun _ => ⟨rfl, rfl, rfl, rfl⟩) hr.1 hr.2
      h.left.npar
  · exact h

theorem Same.region (h : Same s t) : Same (region s) (region t) :=
  ((h.setPar (·.decPar 0)).setPar fun k =>
    if k.par 1 = 0 then Function.update k.par 1 k.videoNumLines else k.par).setRegion

theorem Same.csiAt (h : Same s t) (nr : Nat) : Same (csiAt s nr) (csiAt t nr) := by
  unfold Console.csiAt
  rw [h.cols]
  exact h.iterate Same.insertChar _

theorem Same.csiL (h : Same s t) (nr : Nat) : Same (csiL s nr) (csiL t nr) := by
  unfold Console.csiL
  rw [h.lines]
  exact h.iterate Same.insertLine _

theorem Same.csiP (h : Same s t) (nr : Nat) : Same (csiP s nr) (csiP t nr) := by
  unfold Console.csiP
  rw [h.cols]
  exact h.iterate Same.deleteChar _

theorem Same.csiDelLines (h : Same s t) (nr : Nat) : Same (csiDelLines s nr) (csiDelLines t nr) := by
  unfold Console.csiDelLines
  rw [h.lines]
  exact h.iterate Same.deleteLine _

/-! ## con_write -/

theorem Same.final (h : Same s t) (c : BitVec 8) : Same (final s c) (final t c) := by
  obtain ⟨k, vt, ms, me, o, se, q, m⟩ := t
  obtain rfl : k = s.toVars := h.vars
  have h0 := h.setState 0
  have hinc := h0.setPar (·.incPar 0)
  have hdec := h0.setPar (·.decPar 0)
  unfold Console.final
  dsimp only
  split
  · exact hdec.gotoxy (·.par 0) (·.y)
  · exact hdec.gotoxy (·.par 0) (·.y)
  · exact hinc.gotoxy (·.x) fun k => sub32 k.y (k.par 0)
  · exact hinc.gotoxy (·.x) fun k => add32 k.y (k.par 0)
  · exact hinc.gotoxy (·.x) fun k => add32 k.y (k.par 0)
  · exact hinc.gotoxy (fun k => add32 k.x (k.par 0)) (·.y)
  · exact hinc.gotoxy (fun k => add32 k.x (k.par 0)) (·.y)
  · exact hinc.gotoxy (fun k => sub32 k.x (k.par 0)) (·.y)
  · exact hinc.gotoxy (fun _ => 0) fun k => add32 k.y (k.par 0)
  · exact hinc.gotoxy (fun _ => 0) fun k => sub32 k.y (k.par 0)
  · exact hdec.gotoxy (·.x) (·.par 0)
  · exact (hdec.setPar (·.decPar 1)).gotoxy (·.par 1) (·.par 0)
  · exact (hdec.setPar (·.decPar 1)).gotoxy (·.par 1) (·.par 0)
  · exact h0.csiJ _
  · exact h0.csiK _
  · exact h0.csiL _
  · exact h0.csiDelLines _
  · exact h0.csiP _
  · exact h0.csiAt _
  · exact h0.csiM
  · exact h0.region
  · exact h0.saveCur
  · exact h0.restoreCur
  · exact h0

theorem Same.params (h : Same s t) (c : BitVec 8) : Same (params s c) (params t c) := by
  obtain ⟨k, vt, ms, me, o, se, q, m⟩ := t
  obtain rfl : k = s.toVars := h.vars
  unfold Console.params
  dsimp only
  split
  · next hmore =>
    exact h.update (fun k => { k with npar := k.npar + 1 }) (fun _ => ⟨rfl, rfl, rfl, rfl⟩) h.left.region
      h.left.bottom (show s.npar + 1 < npars by omega)
  · split
    · exact h.setPar fun k => Function.update k.par k.npar (add32 (10 * k.par k.npar) (c.toNat - 48))
    · exact h.final c

/-- Both sides make the same test. -/
theorem Same.ite {p : Prop} [Decidable p] {s t s' t' : Con} (h : p → Same s t) (h' : ¬ p → Same s' t') :
    Same (if p then s else s') (if p then t else t') := by
  by_cases hp : p
  · rw [if_pos hp, if_pos hp]
    exact h hp
  · rw [if_neg hp, if_neg hp]
    exact h' hp

theorem Same.escape (h : Same s t) (c : BitVec 8) : Same (escape s c) (escape t c) := by
  obtain ⟨k, vt, ms, me, o, se, q, m⟩ := t
  obtain rfl : k = s.toVars := h.vars
  have h0 := h.setState 0
  unfold Console.escape
  dsimp only
  refine .ite (fun _ => h.setState 2) fun _ => ?_
  refine .ite (fun _ => h0.gotoxy (fun _ => 0) (·.y + 1)) fun _ => ?_
  refine .ite (fun _ => h0.ri) fun _ => ?_
  refine .ite (fun _ => h0.lf) fun _ => ?_
  refine .ite (fun _ => h0) fun _ => ?_
  refine .ite (fun _ => h0.saveCur) fun _ => ?_
  exact .ite (fun _ => h0.restoreCur) fun _ => h0

theorem Same.plain (h : Same s t) (erasing c : BitVec 8) : Same (plain erasing s c) (plain erasing t c) := by
  have hpos := h.left.pos
  have hqos := h.pos
  have hx := h.left.x
  have hcols := h.left.cols_le
  obtain ⟨k, vt, ms, me, o, se, q, m⟩ := t
  obtain rfl : k = s.toVars := h.vars
  unfold Console.plain
  dsimp only at hqos ⊢
  refine .ite (fun _ => ?_) fun _ => ?_
  · by_cases hle : s.x ≥ s.videoNumColumns
    · rw [if_pos hle, if_pos hle]
      refine (h.wrap (x := s.x) hle (by omega) rfl rfl).put ?_ c
      unfold Console.wrap
      rw [x_lf, cols_lf]
      dsimp only
      omega
    · rw [if_neg hle, if_neg hle]
      exact h.put (Nat.lt_of_not_le hle) c
  refine .ite (fun _ => h.setState 1) fun _ => ?_
  refine .ite (fun _ => h.lf) fun _ => ?_
  refine .ite (fun _ => h.cr) fun _ => ?_
  refine .ite (fun _ => h.del) fun _ => ?_
  refine .ite (fun _ => .ite (fun _ => ?_) fun _ => h) fun _ => ?_
  · exact h.column (by omega) (by omega) (by dsimp only; omega)
  refine .ite (fun _ => .ite (fun _ => ?_) fun _ => ?_) fun _ => h
  · exact h.wrap (by omega) (by omega) (by omega) (by dsimp only; omega)
  · exact h.column (by omega) (by omega) (by dsimp only; omega)

theorem Same.conWrite (h : Same s t) (erasing c : BitVec 8) : Same (conWrite erasing s c) (conWrite erasing t c) := by
  have hstate : t.state = s.state := congrArg (·.state) h.vars
  unfold Console.conWrite
  rw [hstate]
  split
  · exact h.plain erasing c
  · exact h.escape c
  · have h3 := h.update (fun k => { k with par := fun _ => 0, npar := 0, state := 3, ques := c = 63 })
      (fun _ => ⟨rfl, rfl, rfl, rfl⟩) h.left.region h.left.bottom (Nat.zero_lt_succ 15)
    dsimp only
    split
    · exact h3
    · exact h3.params c
  · exact h.params c
  · exact h.final c
  · exact h

theorem Same.conWrites (h : Same s t) (stream : List (BitVec 8 × BitVec 8)) :
    Same (conWrites s stream) (conWrites t stream) := by
  induction stream generalizing s t with
  | nil => exact h
  | cons b stream ih => exact ih (h.conWrite b.1 b.2)

/-! ## con_init -/

theorem within_describe {m : Ram} {lo hi p : Nat} (desc : List (BitVec 8)) (h : m.Within lo hi) (hlo : lo ≤ p)
    (hhi : p + 2 * desc.length ≤ hi) : (describe m p desc).Within lo hi := by
  induction desc generalizing m p with
  | nil => exact h
  | cons c desc ih =>
    rw [List.length_cons] at hhi
    exact ih (h.store hlo (by omega)) (by omega) (by omega)

theorem length_displayDesc (v : VideoType) : v.displayDesc.length = 4 := by
  cases v <;> rfl

/-- A screen fits in the memory of the card; MDA and CGA have room for 163
columns. -/
theorem screen_fits (o : Orig) (h8 : 8 ∣ o.videoCols.toNat)
    (hfit : o.videoType = .mda ∨ o.videoType = .cga → o.videoCols.toNat ≤ 163) :
    o.memStart + 25 * (o.videoCols.toNat * 2) ≤ o.videoType.memEnd := by
  have hlt := o.videoCols.isLt
  unfold Orig.memStart
  by_cases hmode : o.videoMode = 7
  · rw [if_pos hmode]
    by_cases hega : o.egaBx &&& 0xff ≠ 0x10
    · have htype : o.videoType = .egam := by rw [Orig.videoType, if_pos hmode, if_pos hega]
      rw [htype]
      dsimp only [VideoType.memEnd]
      omega
    · have htype : o.videoType = .mda := by rw [Orig.videoType, if_pos hmode, if_neg hega]
      have hcols := hfit (Or.inl htype)
      rw [htype]
      dsimp only [VideoType.memEnd]
      omega
  · rw [if_neg hmode]
    by_cases hega : o.egaBx &&& 0xff ≠ 0x10
    · have htype : o.videoType = .egac := by rw [Orig.videoType, if_neg hmode, if_pos hega]
      rw [htype]
      dsimp only [VideoType.memEnd]
      omega
    · have htype : o.videoType = .cga := by rw [Orig.videoType, if_neg hmode, if_neg hega]
      have hcols := hfit (Or.inr htype)
      rw [htype]
      dsimp only [VideoType.memEnd]
      omega

theorem safe_conInit (o : Orig) (word : Nat → Word) (hx : o.x.toNat < o.videoCols.toNat) (hy : o.y.toNat < 25)
    (h8 : 8 ∣ o.videoCols.toNat) (hfit : o.videoType = .mda ∨ o.videoType = .cga → o.videoCols.toNat ≤ 163) :
    Safe (conInit o word) := by
  have hmem := screen_fits o h8 hfit
  have hcols : 8 ≤ o.videoCols.toNat := Nat.le_of_dvd (by omega) h8
  have hempty : Ram.Within ⟨word, []⟩ o.memStart o.videoType.memEnd := by
    intro a ha
    cases ha
  unfold conInit gotoxy
  dsimp only
  rw [if_neg (by omega)]
  refine ⟨h8, by dsimp only; omega, Nat.le_of_lt hx, hy, ?_, Nat.zero_lt_succ 24, Nat.le_refl _, Nat.le_refl _, ?_, ?_,
    hmem, Nat.zero_lt_succ 15, within_describe _ hempty ?_ ?_⟩
  · dsimp only [Vars.videoSizeRow]
    ring
  · dsimp only
    rw [Nat.sub_self]
    exact Nat.dvd_zero 2
  · dsimp only
    ring
  · dsimp only
    omega
  · dsimp only
    rw [length_displayDesc]
    omega

/-! ## Both ways of scrolling -/

/-- What is seen at line `r` and column `c`. -/
def Con.window (s : Con) (r c : Nat) : Word := s.mem.word (s.origin + r * s.videoSizeRow + c * 2)

theorem window_eq (s : Con) (r c : Nat) :
    s.window r c = s.mem.word (s.origin + 2 * (r * s.videoNumColumns + c)) := by
  have hrow := mul_sizeRow s r
  unfold Con.window
  congr 1
  omega

/-- Every line and column is a cell of the window. -/
theorem cell_lt {r c w n : Nat} (hr : r < n) (hc : c < w) : r * w + c < n * w :=
  Nat.lt_of_lt_of_le (Nat.add_lt_add_left hc _) (row_le w hr)

theorem Same.of_window (hs : Safe s) (ht : Safe t) (hv : t.toVars = s.toVars)
    (hw : ∀ r < s.videoNumLines, ∀ c < s.videoNumColumns, t.window r c = s.window r c) : Same s t := by
  have hcols : t.videoNumColumns = s.videoNumColumns := congrArg (·.videoNumColumns) hv
  have hlines : t.videoNumLines = s.videoNumLines := congrArg (·.videoNumLines) hv
  refine ⟨hv, fun k => s.mem.word (s.origin + 2 * k), ⟨hs, fun _ _ => rfl⟩, ht, ?_⟩
  intro k hk
  rw [hlines, hcols] at hk
  have hcell := hw (k / s.videoNumColumns) ((Nat.div_lt_iff_lt_mul hs.colsPos).mpr hk) (k % s.videoNumColumns)
    (Nat.mod_lt _ hs.colsPos)
  rw [window_eq, window_eq, hcols, Nat.div_add_mod'] at hcell
  exact hcell

theorem Same.window (h : Same s t) {r c : Nat} (hr : r < s.videoNumLines) (hc : c < s.videoNumColumns) :
    t.window r c = s.window r c := by
  have hlt := cell_lt hr hc
  have hcols := h.cols
  have hlines := h.lines
  obtain ⟨-, f, hs, ht⟩ := h
  rw [window_eq, window_eq, hs.cell _ hlt, hcols]
  exact ht.cell _ (by rw [hlines, hcols]; exact hlt)

/-- **Both ways of scrolling show the same**, whatever is written: from consoles
that show the same and whose variables agree, whatever their video cards, the
window and the variables are the same after every stream. -/
theorem fast_scroll (hs : Safe s) (ht : Safe t) (hv : t.toVars = s.toVars)
    (hw : ∀ r < s.videoNumLines, ∀ c < s.videoNumColumns, t.window r c = s.window r c)
    (stream : List (BitVec 8 × BitVec 8)) :
    (conWrites t stream).toVars = (conWrites s stream).toVars ∧
      ∀ r < (conWrites s stream).videoNumLines, ∀ c < (conWrites s stream).videoNumColumns,
        (conWrites t stream).window r c = (conWrites s stream).window r c := by
  have hsame := (Same.of_window hs ht hv hw).conWrites stream
  exact ⟨hsame.vars, fun r hr c hc => hsame.window hr hc⟩

/-- A CGA card, and an EGA card with as much memory; the text scrolls by six
lines. -/
theorem fast_scroll_lines :
    let s := conInit ⟨0, 0, 3, 80, 0x10⟩ fun _ => 0
    let stream := List.replicate 30 (127#8, 10#8)
    (conWrites { s with videoType := .egac } stream).window 0 0 = (conWrites s stream).window 0 0 := by
  intro s stream
  have hs : Safe s := safe_conInit ⟨0, 0, 3, 80, 0x10⟩ (fun _ => 0) (by decide) (by decide) (by decide) (by decide)
  have ht : Safe { s with videoType := .egac } := ⟨hs.columns, hs.colsPos, hs.x, hs.y, hs.pos, hs.region, hs.bottom,
    hs.start, hs.even, hs.scrEnd, hs.memEnd, hs.npar, hs.written⟩
  have hwindow := (fast_scroll hs ht rfl (fun _ _ _ _ => rfl) stream).2
  exact hwindow 0 (by decide +kernel) 0 (by decide +kernel)

/-! ## After con_init -/

/-- **No escape sequence corrupts memory** where a screen fits in video memory:
after every stream the variables agree with each other, the window lies in video
memory, and no word has been written outside it. -/
theorem never_outside (o : Orig) (word : Nat → Word) (hx : o.x.toNat < o.videoCols.toNat) (hy : o.y.toNat < 25)
    (h8 : 8 ∣ o.videoCols.toNat) (hfit : o.videoType = .mda ∨ o.videoType = .cga → o.videoCols.toNat ≤ 163)
    (stream : List (BitVec 8 × BitVec 8)) :
    let s := conWrites (conInit o word) stream
    s.x ≤ s.videoNumColumns ∧ s.y < s.videoNumLines ∧ s.pos = s.origin + s.y * s.videoSizeRow + 2 * s.x ∧
      s.top < s.bottom ∧ s.bottom ≤ s.videoNumLines ∧ s.videoMemStart ≤ s.origin ∧
      s.scrEnd = s.origin + s.videoNumLines * s.videoSizeRow ∧ s.scrEnd ≤ s.videoMemEnd ∧ s.npar < npars ∧
      ∀ a ∈ s.mem.log, s.videoMemStart ≤ a ∧ a + 2 ≤ s.videoMemEnd := by
  intro s
  have hinit := safe_conInit o word hx hy h8 hfit
  have hsame : Same (conInit o word) (conInit o word) := .of_window hinit hinit rfl fun _ _ _ _ => rfl
  have h : Safe s := (hsame.conWrites stream).left
  have hpos := h.pos
  have hend := h.scrEnd
  rw [← mul_sizeRow] at hend
  have hrow := mul_sizeRow s s.y
  exact ⟨h.x, h.y, by omega, h.region, h.bottom, h.start, hend, h.memEnd, h.npar, h.written⟩

/-- 80 columns on a CGA card, and the window is cleared. -/
theorem never_outside_cga :
    let s := conWrites (conInit ⟨0, 0, 3, 80, 0x10⟩ fun _ => 0) [(127, 27), (127, 91), (127, 50), (127, 74)]
    ∀ a ∈ s.mem.log, s.videoMemStart ≤ a ∧ a + 2 ≤ s.videoMemEnd :=
  (never_outside ⟨0, 0, 3, 80, 0x10⟩ (fun _ => 0) (by decide) (by decide) (by decide) (by decide)
    [(127, 27), (127, 91), (127, 50), (127, 74)]).2.2.2.2.2.2.2.2.2

/-- 168 columns on a CGA card: the screen is larger than the video memory, and
"A" at line 25 and column 65 is written after its end. -/
theorem outside_cga :
    let s := conWrites (conInit ⟨0, 0, 3, 168, 0x10⟩ fun _ => 0)
      [(127, 27), (127, 91), (127, 50), (127, 53), (127, 59), (127, 54), (127, 53), (127, 72), (127, 65)]
    s.videoMemEnd < s.scrEnd ∧ s.mem.log.head? = some s.videoMemEnd := by
  decide +kernel

end Console

end Linux011.ChrDrv
