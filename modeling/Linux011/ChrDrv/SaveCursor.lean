import Linux011.ChrDrv.Console

/-!
# Console — saving the cursor

ESC 7 is to save the cursor and ESC 8 to put it back. For both, `con_write` looks
at the column `x` where it should look at the character; the runs are singled out
in which that makes no difference.

* `Kept` — the size of the screen and the saved position are as they were;
* `kept_conWrite` — which characters leave them so;
* `cursor_restored` — ESC 7, any output and ESC 8 give the cursor back, where
  the column is 55 exactly at a '7' and 56 exactly at an '8'.
-/

namespace Linux011.ChrDrv

open Lib

namespace Console

/-! ## What is meant -/

/-- What the character after ESC is to do. -/
def meant (s : Con) (c : BitVec 8) : Con :=
  let s := { s with state := 0 }
  if c = 91 then { s with state := 2 }
  else if c = 69 then gotoxy s 0 (s.y + 1)
  else if c = 77 then ri s
  else if c = 68 then lf s
  else if c = 90 then s
  else if c = 55 then saveCur s
  else if c = 56 then restoreCur s
  else s

/-- The character has a test of its own, before the two of the column. -/
def tested (c : BitVec 8) : Bool := c = 91 || c = 69 || c = 77 || c = 68 || c = 90

/-- The tests of the column come out as those of the character. -/
def Agrees (s : Con) (c : BitVec 8) : Prop :=
  s.state = 1 → tested c = false → ((s.x = 55 ↔ c = 55) ∧ (s.x = 56 ↔ c = 56))

/-- ESC 7, or the end of a control sequence that saves the cursor. -/
def Saves (s : Con) (c : BitVec 8) : Prop :=
  s.state = 1 ∧ c = 55 ∨ (s.state = 2 ∨ s.state = 3 ∨ s.state = 4) ∧ c = 115

/-- Something holds of every character and the console it comes to. -/
def Each (P : Con → BitVec 8 → Prop) : Con → List (BitVec 8 × BitVec 8) → Prop
  | _, [] => True
  | s, b :: stream => P s b.2 ∧ Each P (conWrite b.1 s b.2) stream

/-- The saved position is as it was. -/
def SavedAs (s t : Con) : Prop := t.savedX = s.savedX ∧ t.savedY = s.savedY

variable {s t u : Con} {c : BitVec 8}

theorem escape_meant (h : Agrees s c) (hs : s.state = 1) : escape s c = meant s c := by
  unfold escape meant
  dsimp only
  by_cases ht : tested c = true
  · simp only [tested, Bool.or_eq_true, decide_eq_true_eq] at ht
    rcases ht with (((rfl | rfl) | rfl) | rfl) | rfl
    · simp
    · simp
    · simp
    · simp
    · simp
  · obtain ⟨h7, h8⟩ := h hs (by simpa using ht)
    simp only [h7, h8]

theorem each_append {P : Con → BitVec 8 → Prop} (stream rest : List (BitVec 8 × BitVec 8)) :
    Each P s (stream ++ rest) ↔ Each P s stream ∧ Each P (conWrites s stream) rest := by
  induction stream generalizing s with
  | nil => simp [Each, conWrites]
  | cons b stream ih =>
    simp only [List.cons_append, Each, ih, and_assoc]
    rfl

theorem Each.imp {P Q : Con → BitVec 8 → Prop} (h : ∀ s c, P s c → Q s c)
    (stream : List (BitVec 8 × BitVec 8)) (hs : Each P s stream) : Each Q s stream := by
  induction stream generalizing s with
  | nil => exact hs
  | cons b stream ih => exact ⟨h s b.2 hs.1, ih hs.2⟩

/-! ## What stays -/

/-- The size of the screen and the saved position are as they were. -/
structure Kept (s t : Con) : Prop where
  cols   : t.videoNumColumns = s.videoNumColumns
  lines  : t.videoNumLines = s.videoNumLines
  savedX : t.savedX = s.savedX
  savedY : t.savedY = s.savedY

theorem Kept.refl (s : Con) : Kept s s := ⟨rfl, rfl, rfl, rfl⟩

theorem Kept.trans (h : Kept s t) (h' : Kept t u) : Kept s u :=
  ⟨h'.cols.trans h.cols, h'.lines.trans h.lines, h'.savedX.trans h.savedX, h'.savedY.trans h.savedY⟩

theorem kept_gotoxy (s : Con) (newX newY : Nat) : Kept s (gotoxy s newX newY) := by
  unfold gotoxy
  split
  · exact .refl s
  · exact ⟨rfl, rfl, rfl, rfl⟩

theorem kept_scrup (s : Con) : Kept s (scrup s) := by
  unfold scrup scrupOrigin scrupCopy
  dsimp only
  split_ifs <;> exact ⟨rfl, rfl, rfl, rfl⟩

theorem kept_lf (s : Con) : Kept s (lf s) := by
  unfold lf
  split
  · exact ⟨rfl, rfl, rfl, rfl⟩
  · exact kept_scrup s

theorem kept_ri (s : Con) : Kept s (ri s) := by
  unfold ri
  split <;> exact ⟨rfl, rfl, rfl, rfl⟩

theorem kept_del (s : Con) : Kept s (del s) := by
  unfold del
  split
  · exact ⟨rfl, rfl, rfl, rfl⟩
  · exact .refl s

theorem kept_wrap (s : Con) : Kept s (wrap s) := by
  refine Kept.trans ?_ (kept_lf _)
  exact ⟨rfl, rfl, rfl, rfl⟩

theorem kept_iterate {op : Con → Con} (hop : ∀ s, Kept s (op s)) (n : Nat) (s : Con) :
    Kept s (op^[n] s) := by
  induction n generalizing s with
  | zero => exact .refl s
  | succ n ih => exact (hop s).trans (ih (op s))

theorem kept_csiJ (s : Con) (n : Nat) : Kept s (csiJ s n) := by
  unfold csiJ
  split <;> exact ⟨rfl, rfl, rfl, rfl⟩

theorem kept_csiK (s : Con) (n : Nat) : Kept s (csiK s n) := by
  unfold csiK
  split
  · split <;> exact ⟨rfl, rfl, rfl, rfl⟩
  · exact ⟨rfl, rfl, rfl, rfl⟩
  · exact ⟨rfl, rfl, rfl, rfl⟩
  · exact .refl s

theorem kept_deleteChar (s : Con) : Kept s (deleteChar s) := by
  unfold deleteChar
  split <;> exact ⟨rfl, rfl, rfl, rfl⟩

theorem kept_insertChar (s : Con) : Kept s (insertChar s) := ⟨rfl, rfl, rfl, rfl⟩

theorem kept_insertLine (s : Con) : Kept s (insertLine s) := ⟨rfl, rfl, rfl, rfl⟩

theorem kept_deleteLine (s : Con) : Kept s (deleteLine s) := by
  have h := kept_scrup { s with top := s.y, bottom := s.videoNumLines }
  exact ⟨h.cols, h.lines, h.savedX, h.savedY⟩

theorem kept_region (s : Con) : Kept s (region s) := by
  unfold region
  dsimp only
  split_ifs <;> exact ⟨rfl, rfl, rfl, rfl⟩

theorem kept_plain (erasing : BitVec 8) (s : Con) (c : BitVec 8) : Kept s (plain erasing s c) := by
  have hput : ∀ t, Kept s t → Kept s (put t c) := fun t h => h.trans ⟨rfl, rfl, rfl, rfl⟩
  unfold plain
  split
  · split
    · exact hput _ (kept_wrap s)
    · exact hput s (.refl s)
  split
  · exact ⟨rfl, rfl, rfl, rfl⟩
  split
  · exact kept_lf s
  split
  · exact ⟨rfl, rfl, rfl, rfl⟩
  split
  · exact kept_del s
  split
  · split
    · exact ⟨rfl, rfl, rfl, rfl⟩
    · exact .refl s
  split
  · dsimp only
    split
    · refine Kept.trans ?_ (kept_wrap _)
      exact ⟨rfl, rfl, rfl, rfl⟩
    · exact ⟨rfl, rfl, rfl, rfl⟩
  · exact .refl s

/-- `case 's'`. -/
theorem char_s : ∀ c : BitVec 8, Char.ofNat c.toNat = 's' → c = 115 := by decide +kernel

theorem kept_final (s : Con) (hc : c ≠ 115) : Kept s (final s c) := by
  have h0 : Kept s { s with state := 0 } := ⟨rfl, rfl, rfl, rfl⟩
  have hgo : ∀ (par : Nat → Nat) x y, Kept s (gotoxy { s with state := 0, par := par } x y) := by
    intro par x y
    refine Kept.trans ?_ (kept_gotoxy _ x y)
    exact ⟨rfl, rfl, rfl, rfl⟩
  unfold final
  dsimp only
  split
  any_goals with_reducible exact hgo _ _ _
  · exact h0.trans (kept_csiJ _ _)
  · exact h0.trans (kept_csiK _ _)
  · exact h0.trans (kept_iterate kept_insertLine _ _)
  · exact h0.trans (kept_iterate kept_deleteLine _ _)
  · exact h0.trans (kept_iterate kept_deleteChar _ _)
  · exact h0.trans (kept_iterate kept_insertChar _ _)
  · exact ⟨rfl, rfl, rfl, rfl⟩
  · exact h0.trans (kept_region _)
  · next hchar => exact absurd (char_s c hchar) hc
  · exact h0.trans (kept_gotoxy _ _ _)
  · exact h0

theorem kept_params (s : Con) (hc : c ≠ 115) : Kept s (params s c) := by
  unfold params
  split
  · exact ⟨rfl, rfl, rfl, rfl⟩
  split
  · exact ⟨rfl, rfl, rfl, rfl⟩
  · exact kept_final s hc

theorem kept_meant (s : Con) (hc : c ≠ 55) : Kept s (meant s c) := by
  have h0 : Kept s { s with state := 0 } := ⟨rfl, rfl, rfl, rfl⟩
  unfold meant
  dsimp only
  split
  · exact ⟨rfl, rfl, rfl, rfl⟩
  split
  · exact h0.trans (kept_gotoxy _ _ _)
  split
  · exact h0.trans (kept_ri _)
  split
  · exact h0.trans (kept_lf _)
  split
  · exact h0
  split
  · exact h0.trans (kept_gotoxy _ _ _)
  · exact h0

/-- **A character** that saves nothing leaves the saved position, where the column is what the
code takes it for. -/
theorem kept_conWrite (erasing : BitVec 8) (h : Agrees s c) (hno : ¬ Saves s c) :
    Kept s (conWrite erasing s c) := by
  unfold conWrite
  split
  · exact kept_plain erasing s c
  · next hs =>
    rw [escape_meant h hs]
    exact kept_meant s fun hc => hno (Or.inl ⟨hs, hc⟩)
  · next hs =>
    have hc : c ≠ 115 := fun hc => hno (Or.inr ⟨Or.inl hs, hc⟩)
    have hfirst : Kept s { s with par := fun _ => 0, npar := 0, state := 3, ques := c = 63 } :=
      ⟨rfl, rfl, rfl, rfl⟩
    dsimp only
    split
    · exact hfirst
    · exact hfirst.trans (kept_params _ hc)
  · next hs => exact kept_params s fun hc => hno (Or.inr ⟨Or.inr (Or.inl hs), hc⟩)
  · next hs => exact kept_final s fun hc => hno (Or.inr ⟨Or.inr (Or.inr hs), hc⟩)
  · exact .refl s

theorem kept_conWrites (stream : List (BitVec 8 × BitVec 8)) (h : Each Agrees s stream)
    (hno : Each (fun s c => ¬ Saves s c) s stream) : Kept s (conWrites s stream) := by
  induction stream generalizing s with
  | nil => exact .refl s
  | cons b stream ih => exact (kept_conWrite b.1 h.1 hno.1).trans (ih h.2 hno.2)

/-! ## Save and restore -/

/-- ESC and a character, with what is the erase character at the time. -/
def escSeq (e f c : BitVec 8) : List (BitVec 8 × BitVec 8) := [(e, 27), (f, c)]

theorem conWrite_esc (erasing : BitVec 8) (h : s.state = 0) :
    conWrite erasing s 27 = { s with state := 1 } := by
  unfold conWrite
  simp [h, plain]

theorem conWrites_append (stream rest : List (BitVec 8 × BitVec 8)) :
    conWrites s (stream ++ rest) = conWrites (conWrites s stream) rest :=
  List.foldl_append ..

/-- A two-byte sequence. -/
theorem conWrites_escSeq (e f c : BitVec 8) (h : s.state = 0) (ha : Each Agrees s (escSeq e f c)) :
    conWrites s (escSeq e f c) = meant { s with state := 1 } c := by
  obtain ⟨-, hagree, -⟩ := ha
  unfold conWrites escSeq
  simp only [List.foldl_cons, List.foldl_nil]
  rw [conWrite_esc e h] at hagree ⊢
  exact escape_meant hagree rfl

theorem escape_saved (h : Agrees s c) (hs : s.state = 1) (hc : c ≠ 55) :
    SavedAs s (escape s c) := by
  rw [escape_meant h hs]
  have hkept := kept_meant s hc
  exact ⟨hkept.savedX, hkept.savedY⟩

/-- **ESC 7, any output and ESC 8 give the cursor back**, and no other two-byte sequence changes
the saved position, in runs in which the column is 55 exactly at a '7' and 56 exactly at an
'8', as far as the tests come to that. -/
theorem cursor_restored (hx : s.x ≤ s.videoNumColumns) (hy : s.y < s.videoNumLines)
    (h0 : s.state = 0) (e f e' f' : BitVec 8) (stream : List (BitVec 8 × BitVec 8))
    (hno : Each (fun t c => ¬ Saves t c) (conWrites s (escSeq e f 55)) stream)
    (hend : (conWrites s (escSeq e f 55 ++ stream)).state = 0)
    (hagree : Each Agrees s (escSeq e f 55 ++ stream ++ escSeq e' f' 56)) :
    (conWrites s (escSeq e f 55 ++ stream ++ escSeq e' f' 56)).x = s.x ∧
      (conWrites s (escSeq e f 55 ++ stream ++ escSeq e' f' 56)).y = s.y ∧
      Each (fun t c => t.state = 1 → c ≠ 55 → SavedAs t (escape t c)) s
        (escSeq e f 55 ++ stream ++ escSeq e' f' 56) := by
  have hlaw := hagree.imp (Q := fun t c => t.state = 1 → c ≠ 55 → SavedAs t (escape t c))
    (fun t c h hs hc => escape_saved h hs hc)
  obtain ⟨hfront, hback⟩ := (each_append _ _).mp hagree
  obtain ⟨hsave, hbetween⟩ := (each_append _ _).mp hfront
  have hfirst := conWrites_escSeq e f 55 h0 hsave
  have hsaved : conWrites s (escSeq e f 55) = saveCur s := by
    rw [hfirst]
    unfold meant saveCur
    simp [h0]
  have hkept : Kept (saveCur s) (conWrites s (escSeq e f 55 ++ stream)) := by
    rw [hsaved] at hbetween hno
    rw [conWrites_append, hsaved]
    exact kept_conWrites stream hbetween hno
  have hlast := conWrites_escSeq e' f' 56 hend hback
  rw [← conWrites_append] at hlast
  generalize conWrites s (escSeq e f 55 ++ stream) = t at hkept hlast
  -- the saved position is one of the screen
  have hin : ¬ (t.savedX > t.videoNumColumns ∨ t.savedY ≥ t.videoNumLines) := by
    rw [hkept.savedX, hkept.savedY, hkept.cols, hkept.lines]
    unfold saveCur
    dsimp only
    omega
  have hback' : (conWrites s (escSeq e f 55 ++ stream ++ escSeq e' f' 56)).x = t.savedX ∧
      (conWrites s (escSeq e f 55 ++ stream ++ escSeq e' f' 56)).y = t.savedY := by
    rw [hlast]
    unfold meant restoreCur gotoxy
    simp [if_neg hin]
  exact ⟨hback'.1.trans hkept.savedX, hback'.2.trans hkept.savedY, hlaw⟩

/-- The cursor at line 5 of a CGA card. -/
def cgaAt (column : BitVec 8) : Con := conInit ⟨column, 5, 3, 80, 0x10⟩ fun _ => 0

/-- From column 55, with one character in between. -/
theorem cursor_restored_55 :
    (conWrites (cgaAt 55) (escSeq 127 127 55 ++ [(127, 65)] ++ escSeq 127 127 56)).x = 55 ∧
      (conWrites (cgaAt 55) (escSeq 127 127 55 ++ [(127, 65)] ++ escSeq 127 127 56)).y = 5 := by
  have h := cursor_restored (s := cgaAt 55) (by decide +kernel) (by decide +kernel)
    (by decide +kernel) 127 127 127 127 [(127, 65)] ?_ (by decide +kernel) ?_
  · exact ⟨h.1.trans (by decide +kernel), h.2.1.trans (by decide +kernel)⟩
  · refine ⟨?_, trivial⟩
    unfold Saves
    decide +kernel
  · refine ⟨?_, ?_, ?_, ?_, ?_, trivial⟩
    all_goals
      unfold Agrees
      decide +kernel

/-- From column 10 the cursor stays where the character has left it; and at column 55 any other
character after ESC saves it. -/
theorem cursor_not_restored :
    (cgaAt 10).x = 10 ∧ (cgaAt 10).state = 0 ∧
      Each (fun t c => ¬ Saves t c) (conWrites (cgaAt 10) (escSeq 127 127 55)) [(127, 65)] ∧
      (conWrites (cgaAt 10) (escSeq 127 127 55 ++ [(127, 65)])).state = 0 ∧
      (conWrites (cgaAt 10) (escSeq 127 127 55 ++ [(127, 65)] ++ escSeq 127 127 56)).x = 11 ∧
      (cgaAt 55).savedX = 0 ∧ (conWrites (cgaAt 55) (escSeq 127 127 61)).savedX = 55 := by
  refine ⟨by decide +kernel, by decide +kernel, ⟨?_, trivial⟩, by decide +kernel, by decide +kernel,
    by decide +kernel, by decide +kernel⟩
  unfold Saves
  decide +kernel

end Console

end Linux011.ChrDrv
