import Linux011.Fs.FileBlocks
import Mathlib.Data.Finset.Card

/-!
# Regular files — the room on the disk

How many zones can still be given out, and how many a block of a file needs:
one for its data and one for each index block on the way that is not there yet.
`create_block` succeeds exactly if there are enough.

* `newBlock_full`, `newBlock_room` — `new_block` fails only when no zone is
  left;
* `Placed` — what filling one place of the tree does;
* `bmapIo_create` — the same for the whole way to a block;
* `block_map_array` — the block map behaves like an array.
-/

namespace Linux011.Fs.FileData

open ZoneMap

variable {s t : State} {n b z y : Nat} {p q : Pos}

/-! ## Zones that are left -/

/-- The clear bits that belong to a zone. -/
def freeBits (s : State) : Finset Nat :=
  (Finset.range s.bits).filter fun j => j ∉ s.zmap ∧ j + (s.firstdatazone - 1) < s.nzones

/-- The number of zones that can be given out. -/
def room (s : State) : Nat := (freeBits s).card

theorem mem_freeBits {j : Nat} : j ∈ freeBits s ↔
    j < s.bits ∧ j ∉ s.zmap ∧ j + (s.firstdatazone - 1) < s.nzones := by
  simp [freeBits]

/-- Index blocks and inodes do not count. -/
theorem room_congr (hbits : t.bits = s.bits) (hzmap : t.zmap = s.zmap)
    (hfirst : t.firstdatazone = s.firstdatazone) (hnzones : t.nzones = s.nzones) :
    room t = room s := by
  unfold room freeBits
  rw [hbits, hzmap, hfirst, hnzones]

/-- The same volume, where no bit was cleared. -/
structure Marks (s t : State) : Prop where
  first  : t.firstdatazone = s.firstdatazone
  nzones : t.nzones = s.nzones
  marked : s.zmap ⊆ t.zmap

theorem Marks.refl (s : State) : Marks s s := ⟨rfl, rfl, Finset.Subset.refl _⟩

theorem Marks.trans {u : State} (h1 : Marks s t) (h2 : Marks t u) : Marks s u :=
  ⟨h2.first.trans h1.first, h2.nzones.trans h1.nzones, h1.marked.trans h2.marked⟩

/-- What is free later was free before. -/
theorem Marks.free (h : Marks s t) (hz : Free t z) : Free s z := by
  obtain ⟨hrange, hclear⟩ := hz
  unfold State.bit at hclear
  rw [h.first, h.nzones] at hrange
  rw [h.first] at hclear
  exact ⟨hrange, fun hmem => hclear (h.marked hmem)⟩

/-- No zone is left: `new_block` gives none, whatever bit it sets. -/
theorem newBlock_full (h : Fair s) (hroom : room s = 0) :
    ∃ t, s.newBlock = (t, 0) ∧ Fair t ∧ t.inode = s.inode ∧ t.block = s.block ∧ Marks s t := by
  have hnone : ∀ j, j < s.bits → j ∉ s.zmap → s.nzones ≤ j + (s.firstdatazone - 1) := by
    intro j hj hclear
    by_contra hlt
    have hmem : j ∈ freeBits s := mem_freeBits.mpr ⟨hj, hclear, Nat.lt_of_not_le hlt⟩
    rw [room, Finset.card_eq_zero] at hroom
    simp [hroom] at hmem
  unfold State.newBlock
  cases hfind : (List.range s.bits).find? (· ∉ s.zmap) with
  | none => exact ⟨s, rfl, h, rfl, rfl, .refl s⟩
  | some j =>
    have hclear : j ∉ s.zmap := by simpa using List.find?_some hfind
    have hj : j < s.bits := by simpa using List.mem_of_find?_eq_some hfind
    dsimp only
    rw [if_pos (hnone j hj hclear)]
    exact ⟨_, rfl, ⟨h.first, Finset.mem_insert_of_mem h.zero, h.range, h.once,
      fun m q hq hne => Finset.mem_insert_of_mem (h.held m q hq hne)⟩, rfl, rfl, rfl, rfl,
      Finset.subset_insert ..⟩

/-- A zone is left: `new_block` gives the first one. -/
theorem newBlock_room (h : Fair s) (hroom : room s ≠ 0) :
    ∃ z, z ≠ 0 ∧ Free s z ∧ s.newBlock = (s.take z, z) ∧ room (s.take z) + 1 = room s := by
  obtain ⟨i, hi⟩ := Finset.card_ne_zero.mp hroom
  obtain ⟨hib, hiclear, hilt⟩ := mem_freeBits.mp hi
  unfold State.newBlock
  cases hfind : (List.range s.bits).find? (· ∉ s.zmap) with
  | none =>
    have hall := List.find?_eq_none.mp hfind i (by simpa using hib)
    simp [hiclear] at hall
  | some j =>
    have hclear : j ∉ s.zmap := by simpa using List.find?_some hfind
    have hjb : j < s.bits := by simpa using List.mem_of_find?_eq_some hfind
    have hj : j ≠ 0 := fun heq => hclear (heq ▸ h.zero)
    -- the search finds the smallest
    have hji : j ≤ i := by
      obtain ⟨-, -, hbefore⟩ := List.find?_range_eq_some.mp hfind
      by_contra hlt
      have := hbefore i (Nat.lt_of_not_le hlt)
      simp [hiclear] at this
    have hfirst := h.first
    have hlt : ¬ s.nzones ≤ j + (s.firstdatazone - 1) := by omega
    have hbit : s.bit (j + (s.firstdatazone - 1)) = j := Nat.add_sub_cancel ..
    dsimp only
    rw [if_neg hlt]
    refine ⟨j + (s.firstdatazone - 1), by omega, ⟨by omega, ?_⟩, ?_, ?_⟩
    · rw [hbit]
      exact hclear
    · unfold State.take
      rw [hbit]
    · have hmem : j ∈ freeBits s := mem_freeBits.mpr ⟨hjb, hclear, by omega⟩
      have htake : freeBits (s.take (j + (s.firstdatazone - 1))) = (freeBits s).erase j := by
        ext i
        simp only [mem_freeBits, State.take, hbit, Finset.mem_insert, Finset.mem_erase, not_or]
        tauto
      rw [room, htake]
      exact Finset.card_erase_add_one hmem

/-! ## One place -/

/-- Place `p` of inode `n` was looked at, and filled if it was empty and a zone
was left; `y` is the zone there now. -/
structure Placed (s t : State) (n : Nat) (p : Pos) (y : Nat) : Prop where
  fair  : Fair t
  mode  : ∀ m, (t.inode m).mode = (s.inode m).mode
  marks : Marks s t
  at_eq : ∀ m q, s.Has m q → t.at m q = if m = n ∧ q = p then y else s.at m q
  same  : s.at n p ≠ 0 → t = s
  full  : y = 0 ↔ s.at n p = 0 ∧ room s = 0
  room  : y ≠ 0 → room t + (if s.at n p = 0 then 1 else 0) = room s
  fresh : s.at n p = 0 → y ≠ 0 → Free s y ∧ t.block y = fun _ => 0

theorem Placed.file (h : Placed s t n p y) (m : Nat) : t.file m = s.file m := file_congr (h.mode m)

/-- The place is as it was. -/
theorem placed_refl (h : Fair s) (hne : s.at n p ≠ 0) : Placed s s n p (s.at n p) where
  fair  := h
  mode  := fun _ => rfl
  marks := .refl s
  at_eq := fun m q _ => by
    split_ifs with hand
    · rw [hand.1, hand.2]
    · rfl
  same  := fun _ => rfl
  full  := by simp [hne]
  room  := fun _ => by simp [hne]
  fresh := fun h₀ => absurd h₀ hne

/-- No zone was left. -/
theorem placed_full (hroom : room s = 0) (h₀ : s.at n p = 0) (hfair : Fair t)
    (hsame : t.inode = s.inode ∧ t.block = s.block) (hmarks : Marks s t) :
    Placed s t n p 0 where
  fair  := hfair
  mode  := fun m => by rw [hsame.1]
  marks := hmarks
  at_eq := fun m q _ => by
    rw [(at_congr hsame).1 m q]
    split_ifs with hand
    · rw [hand.1, hand.2, h₀]
    · rfl
  same  := fun hne => absurd h₀ hne
  full  := by simp [h₀, hroom]
  room  := fun hne => absurd rfl hne
  fresh := fun _ hne => absurd rfl hne

/-- What is at the places after a new zone was put at one of them, where bits
may be set for no zone. -/
theorem fair_at_store (h : Fair s) (hp : s.Has n p)
    (hup : ∀ q b, p.up = some (q, b) → s.at n q ≠ 0) (h₀ : s.at n p = 0) (hz : Free s z) {m : Nat}
    (hq : s.Has m q) :
    ((s.take z).store n p z).at m q = if m = n ∧ q = p then z else s.at m q := by
  obtain ⟨lost, hsub, hgood⟩ := fair_lose h
  have hat := at_store hgood hp hup h₀ (lose_free hz) hq
  rw [← lose_take hsub hz, ← lose_store] at hat
  exact hat

/-- A free zone is no index block on the way. -/
theorem slot_ne (h : Fair s) (hp : s.Has n p) (hz : Free s z) (c : Nat) :
    (s.take z).slot n p ≠ some (z, c) := by
  intro heq
  obtain ⟨r, hr, hw⟩ := slot_iff.mp heq
  have hhas : s.Has n r := ⟨hp.1, (valid_up hr hp.2).1⟩
  rw [fair_take h hz hhas] at hw
  have hfirst := h.first
  have hrange := hz.range
  exact hz.clear (hw ▸ h.held n r hhas (by omega))

/-- A zone was left. -/
theorem placed_new (h : Fair s) (hp : s.Has n p) (hup : ∀ q b, p.up = some (q, b) → s.at n q ≠ 0)
    (h₀ : s.at n p = 0) (hz₀ : z ≠ 0) (hz : Free s z) (hroom : room (s.take z) + 1 = room s) :
    Placed s ((s.take z).store n p z) n p z := by
  obtain ⟨hzmap, hfirst, hnzones, -⟩ := store_frame (s.take z) n p z
  have hbits : ((s.take z).store n p z).bits = (s.take z).bits := by cases p <;> rfl
  refine ⟨(fair_store h hp hup h₀ hz).1, ?_, ⟨hfirst, hnzones, ?_⟩,
    fun m q hq => fair_at_store h hp hup h₀ hz hq, fun hne => absurd h₀ hne, ?_, ?_,
    fun _ _ => ⟨hz, ?_⟩⟩
  · intro m
    cases p with
    | zone k => exact setZone_mode (s.take z) n k z m
    | _ => rfl
  · rw [hzmap]
    exact Finset.subset_insert ..
  · have : room s ≠ 0 := by omega
    simp [hz₀, this]
  · intro _
    rw [if_pos h₀, room_congr hbits hzmap hfirst hnzones, hroom]
  · funext c
    rw [store_block, if_neg (slot_ne h hp hz c)]
    exact congrFun (Function.update_self z (fun _ => 0) s.block) c

theorem fillZone_placed (h : Fair s) {k : Nat} (hp : s.Has n (.zone k)) :
    ∃ t y, s.fillZone n k true = (t, y) ∧ Placed s t n (.zone k) y := by
  have hzone : s.zone n k = s.at n (.zone k) := rfl
  unfold State.fillZone
  simp only [Bool.true_and, beq_iff_eq, hzone]
  by_cases h₀ : s.at n (.zone k) = 0
  · rw [if_pos h₀]
    by_cases hroom : room s = 0
    · obtain ⟨t, hnew, hfair, hinode, hblock, hmarks⟩ := newBlock_full h hroom
      rw [hnew]
      have hsame : t.zone n k = 0 := by
        unfold State.zone
        rw [hinode]
        exact h₀
      dsimp only
      rw [setZone_self hsame]
      exact ⟨t, 0, rfl, placed_full hroom h₀ hfair ⟨hinode, hblock⟩ hmarks⟩
    · obtain ⟨z, hz₀, hz, hnew, hleft⟩ := newBlock_room h hroom
      rw [hnew]
      exact ⟨_, z, rfl, placed_new h hp (fun _ _ hr => by cases hr) h₀ hz₀ hz hleft⟩
  · rw [if_neg h₀]
    exact ⟨s, _, rfl, placed_refl h h₀⟩

theorem fillEntry_placed (h : Fair s) (hp : s.Has n p) (hup : p.up = some (q, b))
    (hq : s.at n q ≠ 0) :
    ∃ t y, s.fillEntry (s.at n q) b true = (t, y) ∧ Placed s t n p y := by
  have hentry : s.block (s.at n q) b = s.at n p := by
    rw [at_up hup]
    exact (if_neg hq).symm
  have hhas : s.Has n q := ⟨hp.1, (valid_up hup hp.2).1⟩
  unfold State.fillEntry
  simp only [Bool.true_and, beq_iff_eq, hentry]
  by_cases h₀ : s.at n p = 0
  · rw [if_pos h₀]
    by_cases hroom : room s = 0
    · obtain ⟨t, hnew, hfair, hinode, hblock, hmarks⟩ := newBlock_full h hroom
      rw [hnew]
      exact ⟨t, 0, rfl, placed_full hroom h₀ hfair ⟨hinode, hblock⟩ hmarks⟩
    · obtain ⟨z, hz₀, hz, hnew, hleft⟩ := newBlock_room h hroom
      rw [hnew]
      dsimp only
      rw [if_neg hz₀]
      have hup' : ∀ r c, p.up = some (r, c) → s.at n r ≠ 0 := by
        intro r c hr
        cases hup.symm.trans hr
        exact hq
      have hnew' := placed_new h hp hup' h₀ hz₀ hz hleft
      rw [store_eq hup, fair_take h hz hhas] at hnew'
      exact ⟨_, z, rfl, hnew'⟩
  · rw [if_neg h₀]
    exact ⟨s, _, rfl, placed_refl h h₀⟩

/-! ## The way to a block -/

/-- The places on the way to a block of data, from the inode on. -/
def way (b : Nat) : List Pos :=
  if b < 7 then [.zone b]
  else if b - 7 < 512 then [.zone 7, .entry (b - 7)]
  else [.zone 8, .mid ((b - 7 - 512) >>> 9),
    .leaf ((b - 7 - 512) >>> 9) ((b - 7 - 512) &&& 511)]

/-- How many of the places are empty. -/
def needs (s : State) (n : Nat) (ps : List Pos) : Nat := ps.countP (s.at n · = 0)

/-- The index blocks on the way to the block can be read. -/
def Readable (b : Nat) (ok : Nat → Bool) : Prop :=
  (7 ≤ b → ok 0 = true) ∧ (519 ≤ b → ok 1 = true)

/-- The places `ps` were gone through, down to `d`. If the blocks on the way
could be read (`rd`), `y` is the zone that is at `d` now. -/
structure Reached (s t : State) (n : Nat) (ps : List Pos) (d : Pos) (rd : Prop) (y : Nat) :
    Prop where
  fair   : Fair t
  mode   : ∀ m, (t.inode m).mode = (s.inode m).mode
  marks  : Marks s t
  others : ∀ m q, s.Has m q → (m = n → q ∉ ps) → t.at m q = s.at m q
  kept   : ∀ q, s.Has n q → s.at n q ≠ 0 → t.at n q = s.at n q
  data   : rd → t.at n d = y
  same   : s.at n d ≠ 0 → t = s
  full   : y = 0 ↔ ¬ rd ∨ room s < needs s n ps
  room   : y ≠ 0 → room t + needs s n ps = room s
  whole  : y ≠ 0 → ∀ q ∈ ps, t.at n q ≠ 0
  fresh  : s.at n d = 0 → y ≠ 0 → Free s y ∧ t.block y = fun _ => 0

theorem needs_cons (s : State) (n : Nat) (p : Pos) (ps : List Pos) :
    needs s n (p :: ps) = needs s n ps + if s.at n p = 0 then 1 else 0 := by
  simp [needs, List.countP_cons]

theorem needs_congr {ps : List Pos} (h : ∀ q ∈ ps, t.at n q = s.at n q) :
    needs t n ps = needs s n ps := by
  refine List.countP_congr fun q hq => ?_
  rw [h q hq]

/-- The last place. -/
theorem reached_last (h : Placed s t n p y) (hp : s.Has n p) : Reached s t n [p] p True y := by
  have hat := h.at_eq n p hp
  rw [if_pos ⟨rfl, rfl⟩] at hat
  have hneeds : needs s n [p] = if s.at n p = 0 then 1 else 0 := by simp [needs]
  refine ⟨h.fair, h.mode, h.marks, fun m q hq hout => ?_, fun q hq hne => ?_, fun _ => hat,
    h.same, ?_, ?_, ?_, h.fresh⟩
  · rw [h.at_eq m q hq, if_neg fun hand => hout hand.1 (by simp [hand.2])]
  · rw [h.at_eq n q hq]
    split_ifs with hand
    · rw [hand.2] at hne
      rw [← hat, h.same hne, hand.2]
    · rfl
  · rw [h.full, hneeds]
    split_ifs with h₀ <;> simp [h₀]
  · intro hy
    rw [hneeds]
    exact h.room hy
  · intro hy q hq
    rw [List.mem_singleton.mp hq, hat]
    exact hy

/-- No zone was left for the index block. -/
theorem reached_full {ps : List Pos} {d : Pos} (h : Placed s t n p 0) (hp : s.Has n p)
    (hd : s.at n p = 0 → s.at n d = 0) (rd : Prop) (hat : rd → t.at n d = 0) :
    Reached s t n (p :: ps) d rd 0 := by
  obtain ⟨h₀, hroom⟩ := h.full.mp rfl
  refine ⟨h.fair, h.mode, h.marks, fun m q hq hout => ?_, fun q hq hne => ?_, hat,
    fun hne => absurd (hd h₀) hne, ?_, fun hne => absurd rfl hne, fun hne => absurd rfl hne,
    fun _ hne => absurd rfl hne⟩
  · rw [h.at_eq m q hq, if_neg fun hand => hout hand.1 (by simp [hand.2])]
  · rw [h.at_eq n q hq, if_neg]
    rintro ⟨-, rfl⟩
    exact hne h₀
  · rw [needs_cons, if_pos h₀, hroom]
    simp

/-- The index block cannot be read. -/
theorem reached_unreadable {ps : List Pos} {d : Pos} {rd : Prop} (h : Placed s t n p y)
    (hp : s.Has n p) (hd : s.at n p = 0 → s.at n d = 0) (hrd : ¬ rd) :
    Reached s t n (p :: ps) d rd 0 := by
  refine ⟨h.fair, h.mode, h.marks, fun m q hq hout => ?_, fun q hq hne => ?_,
    fun hr => absurd hr hrd, fun hne => h.same fun h₀ => hne (hd h₀), by simp [hrd], fun hne => absurd rfl hne,
    fun hne => absurd rfl hne, fun _ hne => absurd rfl hne⟩
  · rw [h.at_eq m q hq, if_neg fun hand => hout hand.1 (by simp [hand.2])]
  · exact ((reached_last h hp).kept q hq hne)

/-- One more place before the way. -/
theorem reached_cons {u : State} {y₁ : Nat} {ps : List Pos} {d : Pos} {rd : Prop}
    (h : Placed s t n p y₁) (hp : s.Has n p) (hy₁ : y₁ ≠ 0) (hr : Reached t u n ps d rd y)
    (hd : s.at n p = 0 → s.at n d = 0) (hdps : s.Has n d ∧ d ≠ p) (hps : ∀ q ∈ ps, s.Has n q)
    (hnot : p ∉ ps) : Reached s u n (p :: ps) d rd y := by
  have hhas : ∀ m q, t.Has m q ↔ s.Has m q := fun m q => by
    unfold State.Has
    rw [h.file]
  have hsame : ∀ m q, s.Has m q → (m = n → q ≠ p) → t.at m q = s.at m q := by
    intro m q hq hout
    rw [h.at_eq m q hq, if_neg fun hand => hout hand.1 hand.2]
  have hself : t.at n p = y₁ := (h.at_eq n p hp).trans (if_pos ⟨rfl, rfl⟩)
  have hneeds : needs t n ps = needs s n ps :=
    needs_congr fun q hq => hsame n q (hps q hq) fun _ heq => hnot (heq ▸ hq)
  have hroom := h.room hy₁
  have hdat : t.at n d = s.at n d := hsame n d hdps.1 fun _ => hdps.2
  refine ⟨hr.fair, fun m => (hr.mode m).trans (h.mode m), h.marks.trans hr.marks, ?_, ?_,
    hr.data, ?_, ?_, ?_, ?_, ?_⟩
  · intro m q hq hout
    have hq' := (hhas m q).mpr hq
    rw [hr.others m q hq' fun hm hmem => hout hm (List.mem_cons_of_mem _ hmem)]
    exact hsame m q hq fun hm heq => hout hm (by simp [heq])
  · intro q hq hne
    have hkept := (reached_last h hp).kept q hq hne
    rw [hr.kept q ((hhas n q).mpr hq) (hkept.trans_ne hne), hkept]
  · intro hne
    have hts := h.same fun h₀ => hne (hd h₀)
    rw [hr.same (hdat.trans_ne hne), hts]
  · rw [hr.full, hneeds, needs_cons]
    refine or_congr_right ?_
    omega
  · intro hy
    have := hr.room hy
    rw [hneeds] at this
    rw [needs_cons]
    omega
  · intro hy q hq
    rcases List.mem_cons.mp hq with rfl | hq
    · rw [hr.kept q ((hhas n q).mpr hp) (hself.trans_ne hy₁), hself]
      exact hy₁
    · exact hr.whole hy q hq
  · intro h₀ hy
    obtain ⟨hfree, hzero⟩ := hr.fresh (hdat.trans h₀) hy
    exact ⟨h.marks.free hfree, hzero⟩

theorem Reached.congr {ps : List Pos} {d : Pos} {rd rd' : Prop} (h : Reached s t n ps d rd y)
    (hrd : rd ↔ rd') : Reached s t n ps d rd' y := propext hrd ▸ h

/-- Nothing is below a place that is empty. -/
theorem below_zero (hup : p.up = some (q, b)) (h₀ : s.at n q = 0) : s.at n p = 0 := by
  rw [at_up hup]
  exact if_pos h₀

/-- **`_bmap` with creation** goes down the way to the block, as far as blocks
can be read and zones are left. -/
theorem bmapIo_create (h : Fair s) (hn : s.file n = true) (hb : b < maxBlock) (ok : Nat → Bool) :
    ∃ t y, bmapIo s n b true ok = some (t, y) ∧
      Reached s t n (way b) (dataPos b) (Readable b ok) y := by
  have hbig : ¬ 7 + 512 + 512 * 512 ≤ b := Nat.not_le_of_lt hb
  have hhas : s.Has n (dataPos b) := ⟨hn, dataPos_valid hb⟩
  unfold bmapIo way
  rw [if_neg hbig]
  by_cases hdirect : b < 7
  · have hpos : dataPos b = .zone b := if_pos hdirect
    rw [if_pos hdirect, if_pos hdirect, hpos]
    obtain ⟨t, y, hfill, hplaced⟩ := fillZone_placed (k := b) h ⟨hn, (by omega : b < 9)⟩
    rw [hfill]
    refine ⟨t, y, rfl, (reached_last hplaced (hpos ▸ hhas)).congr ?_⟩
    unfold Readable
    simp only [true_iff]
    exact ⟨fun hle => absurd hle (by omega), fun hle => absurd hle (by omega)⟩
  rw [if_neg hdirect, if_neg hdirect]
  by_cases hind : b - 7 < 512
  · -- by way of the index block in zone 7
    have hpos : dataPos b = .entry (b - 7) := by
      unfold dataPos
      rw [if_neg hdirect, if_pos hind]
    have hup : (Pos.entry (b - 7)).up = some (.zone 7, b - 7) := rfl
    have hrd : Readable b ok ↔ ok 0 = true := by
      unfold Readable
      constructor
      · exact fun hr => hr.1 (by omega)
      · exact fun hr => ⟨fun _ => hr, fun hle => absurd hle (by omega)⟩
    have h7 : s.Has n (.zone 7) := ⟨hn, (by omega : 7 < 9)⟩
    rw [hpos] at hhas
    rw [if_pos hind, if_pos hind, hpos]
    obtain ⟨t₁, z, hfill, hplaced⟩ := fillZone_placed h h7
    have hat : t₁.at n (.zone 7) = z := (hplaced.at_eq n _ h7).trans (if_pos ⟨rfl, rfl⟩)
    rw [hfill]
    dsimp only
    by_cases hz : z = 0
    · subst hz
      rw [if_pos rfl]
      exact ⟨t₁, 0, rfl, reached_full hplaced h7 (below_zero hup) _ fun _ => below_zero hup hat⟩
    rw [if_neg hz]
    by_cases hok : ok 0 = false
    · rw [if_pos hok]
      exact ⟨t₁, 0, rfl, reached_unreadable hplaced h7 (below_zero hup) (by simp [hrd, hok])⟩
    rw [if_neg hok]
    have hhas₁ : t₁.Has n (.entry (b - 7)) := ⟨(hplaced.file n).trans hn, hhas.2⟩
    obtain ⟨t₂, y, hfill₂, hplaced₂⟩ := fillEntry_placed hplaced.fair hhas₁ hup (hat.trans_ne hz)
    rw [hat] at hfill₂
    rw [hfill₂]
    refine ⟨t₂, y, rfl, (reached_cons hplaced h7 hz (reached_last hplaced₂ hhas₁)
      (below_zero hup) ⟨hhas, by simp⟩ ?_ (by simp)).congr ?_⟩
    · intro q hq
      rw [List.mem_singleton.mp hq]
      exact hhas
    · simp [hrd, hok]
  · -- by way of two
    set i := (b - 7 - 512) >>> 9 with hi
    set j := (b - 7 - 512) &&& 511 with hj
    have hpos : dataPos b = .leaf i j := by
      unfold dataPos
      rw [if_neg hdirect, if_neg hind]
    have hup₁ : (Pos.mid i).up = some (.zone 8, i) := rfl
    have hup₂ : (Pos.leaf i j).up = some (.mid i, j) := rfl
    have hrd : Readable b ok ↔ ok 0 = true ∧ ok 1 = true := by
      unfold Readable
      constructor
      · exact fun hr => ⟨hr.1 (by omega), hr.2 (by omega)⟩
      · exact fun hr => ⟨fun _ => hr.1, fun _ => hr.2⟩
    have h8 : s.Has n (.zone 8) := ⟨hn, (by omega : 8 < 9)⟩
    have hmid : s.Has n (.mid i) := ⟨hn, shift_lt hb⟩
    rw [hpos] at hhas
    rw [if_neg hind, if_neg hind, hpos]
    dsimp only
    rw [← hi, ← hj]
    have hlow : ∀ {u : State}, u.at n (.zone 8) = 0 → u.at n (.leaf i j) = 0 := fun h₀ =>
      below_zero hup₂ (below_zero hup₁ h₀)
    obtain ⟨t₁, z, hfill, hplaced⟩ := fillZone_placed h h8
    have hat : t₁.at n (.zone 8) = z := (hplaced.at_eq n _ h8).trans (if_pos ⟨rfl, rfl⟩)
    rw [hfill]
    dsimp only
    by_cases hz : z = 0
    · subst hz
      rw [if_pos rfl]
      exact ⟨t₁, 0, rfl, reached_full hplaced h8 hlow _ fun _ => hlow hat⟩
    rw [if_neg hz]
    by_cases hok : ok 0 = false
    · rw [if_pos hok]
      exact ⟨t₁, 0, rfl, reached_unreadable hplaced h8 hlow (by simp [hrd, hok])⟩
    rw [if_neg hok]
    have hmid₁ : t₁.Has n (.mid i) := ⟨(hplaced.file n).trans hn, hmid.2⟩
    have hhas₁ : t₁.Has n (.leaf i j) := ⟨hmid₁.1, hhas.2⟩
    obtain ⟨t₂, w, hfill₂, hplaced₂⟩ := fillEntry_placed hplaced.fair hmid₁ hup₁ (hat.trans_ne hz)
    have hat₂ : t₂.at n (.mid i) = w := (hplaced₂.at_eq n _ hmid₁).trans (if_pos ⟨rfl, rfl⟩)
    rw [hat] at hfill₂
    rw [hfill₂]
    dsimp only
    -- the first index block before what was reached by the second
    have hfirst : ∀ {u v rd}, Reached t₁ u n [.mid i, .leaf i j] (.leaf i j) rd v →
        Reached s u n [.zone 8, .mid i, .leaf i j] (.leaf i j) rd v := by
      intro u v rd hr
      refine reached_cons hplaced h8 hz hr hlow ⟨hhas, by simp⟩ ?_ (by simp)
      intro q hq
      simp only [List.mem_cons, List.not_mem_nil, or_false] at hq
      rcases hq with rfl | rfl
      · exact hmid
      · exact hhas
    by_cases hw : w = 0
    · subst hw
      rw [if_pos rfl]
      exact ⟨t₂, 0, rfl, hfirst (reached_full hplaced₂ hmid₁ (below_zero hup₂) _
        fun _ => below_zero hup₂ hat₂)⟩
    rw [if_neg hw]
    by_cases hok' : ok 1 = false
    · rw [if_pos hok']
      exact ⟨t₂, 0, rfl, hfirst (reached_unreadable hplaced₂ hmid₁ (below_zero hup₂)
        (by simp [hrd, hok']))⟩
    rw [if_neg hok']
    have hhas₂ : t₂.Has n (.leaf i j) := ⟨(hplaced₂.file n).trans hmid₁.1, hhas.2⟩
    obtain ⟨t₃, y, hfill₃, hplaced₃⟩ := fillEntry_placed hplaced₂.fair hhas₂ hup₂
      (hat₂.trans_ne hw)
    rw [hat₂] at hfill₃
    rw [hfill₃]
    refine ⟨t₃, y, rfl, (hfirst (reached_cons hplaced₂ hmid₁ hw (reached_last hplaced₃ hhas₂)
      (below_zero hup₂) ⟨hhas₁, by simp⟩ ?_ (by simp))).congr ?_⟩
    · intro q hq
      rw [List.mem_singleton.mp hq]
      exact hhas₁
    · simp [hrd, hok, hok']

/-! ## The block map as an array -/

/-- Where all blocks can be read this is the `_bmap` of the zone accounts. -/
theorem bmapIo_true (s : State) (n b : Nat) (create : Bool) :
    bmapIo s n b create (fun _ => true) = s.bmap n b create := by
  unfold bmapIo State.bmap
  simp

theorem way_index (b : Nat) (hq : q ∈ way b) : q = dataPos b ∨ IsIndex q := by
  unfold way at hq
  unfold dataPos
  split_ifs at hq ⊢ with h1 h2
  · simp at hq
    exact Or.inl hq
  · simp at hq
    rcases hq with rfl | rfl
    · exact Or.inr (Or.inl rfl)
    · exact Or.inl rfl
  · simp at hq
    rcases hq with rfl | rfl | rfl
    · exact Or.inr (Or.inr rfl)
    · exact Or.inr trivial
    · exact Or.inl rfl

/-- The place of another block is not on the way. -/
theorem dataPos_notMem_way {m : Nat} (hm : m ≠ b) : dataPos m ∉ way b := by
  intro hmem
  rcases way_index b hmem with heq | hindex
  · exact hm (dataPos_inj heq)
  · exact dataPos_not_index m hindex

theorem bmap_lookup (s : State) (n : Nat) (hb : b < maxBlock) :
    s.bmap n b false = some (s, s.at n (dataPos b)) := by
  obtain ⟨t, y, heq⟩ := bmapIo_total s n hb false fun _ => true
  have hy := bmapIo_read ⟨rfl, rfl⟩ heq
  rw [bmapIo_true] at heq
  have hsame : ∀ {create}, s.bmap n b create = some (t, y) → create = false → t = s := by
    intro create h hc
    subst hc
    have hzone : ∀ k, s.fillZone n k false = (s, s.zone n k) := fun _ => rfl
    have hentry : ∀ w c, s.fillEntry w c false = (s, s.block w c) := fun _ _ => rfl
    unfold State.bmap at h
    simp only [hzone, hentry] at h
    split_ifs at h <;> cases h <;> rfl
  rw [heq, hsame heq rfl, hy]

/-- **The block map behaves like an array.** `bmap` changes nothing.
`create_block` of block `b` returns what `bmap` of it returns afterwards, and
leaves `bmap` of every other block as it was. A zone that was there is
returned, and nothing changes; else, if as many zones are left as places are
empty on the way, there is now a new one, zeroed, which was free before and is
at no other place of the file. If fewer are left, the block stays a hole, and
0 is returned. -/
theorem block_map_array (h : Fair s) (hn : s.file n = true) :
    (∀ m, m < maxBlock → s.bmap n m false = some (s, s.at n (dataPos m))) ∧
    ∀ b, b < maxBlock → ∃ t y, s.createBlock n b = some (t, y) ∧ Fair t ∧
      (∀ m, m < maxBlock → m ≠ b → t.bmap n m false = some (t, s.at n (dataPos m))) ∧
      t.bmap n b false = some (t, y) ∧
      (s.at n (dataPos b) ≠ 0 → t = s ∧ y = s.at n (dataPos b)) ∧
      (s.at n (dataPos b) = 0 → needs s n (way b) ≤ room s → y ≠ 0 ∧ Free s y ∧
        (t.block y = fun _ => 0) ∧ ∀ q, q.Valid → q ≠ dataPos b → t.at n q ≠ y) ∧
      (s.at n (dataPos b) = 0 → room s < needs s n (way b) → y = 0) := by
  refine ⟨fun m hm => bmap_lookup s n hm, fun b hb => ?_⟩
  have hread : Readable b fun _ => true := ⟨fun _ => rfl, fun _ => rfl⟩
  obtain ⟨t, y, heq, hr⟩ := bmapIo_create h hn hb fun _ => true
  rw [bmapIo_true] at heq
  have hdata := hr.data hread
  have hfile : t.file n = true := (file_congr (hr.mode n)).trans hn
  refine ⟨t, y, heq, hr.fair, fun m hm hmb => ?_, ?_, fun hne => ?_, fun h₀ hleft => ?_,
    fun _ hless => hr.full.mpr (Or.inr hless)⟩
  · rw [bmap_lookup t n hm, hr.others n _ ⟨hn, dataPos_valid hm⟩ fun _ => dataPos_notMem_way hmb]
  · rw [bmap_lookup t n hb, hdata]
  · have hts := hr.same hne
    exact ⟨hts, by rw [← hdata, hts]⟩
  · have hy : y ≠ 0 := by
      intro hy
      rcases hr.full.mp hy with hnot | hless
      · exact hnot hread
      · omega
    obtain ⟨hfree, hzero⟩ := hr.fresh h₀ hy
    refine ⟨hy, hfree, hzero, fun q hq hne heq' => hne ?_⟩
    have hdat : t.at n (dataPos b) ≠ 0 := hdata.trans_ne hy
    have hsame : t.at n (dataPos b) = t.at n q := hdata.trans heq'.symm
    exact (hr.fair.once n _ n q ⟨hfile, dataPos_valid hb⟩ ⟨hfile, hq⟩ hdat hsame).2.symm

theorem block_map_array_blank : ∃ t y, blank.createBlock 2 600 = some (t, y) ∧ y ≠ 0 ∧
    t.bmap 2 600 false = some (t, y) ∧ t.bmap 2 5 false = some (t, 0) := by
  have hzero : ∀ b, b < maxBlock → blank.at 2 (dataPos b) = 0 := fun b hb =>
    at_zero (fun _ _ => rfl) (dataPos_valid hb)
  have hb : 600 < maxBlock := by decide
  have h5 : 5 < maxBlock := by decide
  have hroom : needs blank 2 (way 600) ≤ room blank := by
    have hneeds : needs blank 2 (way 600) ≤ 3 := List.countP_le_length
    have hbits : ({1, 2, 3} : Finset Nat) ⊆ freeBits blank := by
      intro j hj
      simp only [Finset.mem_insert, Finset.mem_singleton] at hj
      refine mem_freeBits.mpr ⟨?_, ?_, ?_⟩ <;> simp [blank] <;> omega
    exact hneeds.trans (Finset.card_le_card hbits)
  obtain ⟨-, hcreate⟩ := block_map_array (n := 2) good_blank.fair (by decide)
  obtain ⟨t, y, heq, -, hothers, hsame, -, hnew, -⟩ := hcreate 600 hb
  refine ⟨t, y, heq, (hnew (hzero 600 hb) hroom).1, hsame, ?_⟩
  rw [hothers 5 h5 (by decide), hzero 5 h5]

/-- A volume with one zone for data, which is block 0 of inode 2. -/
def crowded : State where
  firstdatazone := 5
  nzones := 6
  bits := 8192
  zmap := {0, 1}
  inode n := ⟨if n = 2 then 0o100644 else 0, fun k => if n = 2 ∧ k = 0 then 5 else 0⟩
  block _ _ := 0

theorem crowded_at (hne : crowded.at n q ≠ 0) : n = 2 ∧ q = .zone 0 ∧ crowded.at n q = 5 :=
  at_one (fun _ _ => rfl) hne

theorem good_crowded : Good crowded := by
  refine ⟨by decide, by decide, fun n q hq hne => ?_, fun n q m r hq hr hne heq => ?_, ?_⟩
  · rw [(crowded_at hne).2.2]
    decide
  · obtain ⟨rfl, rfl, -⟩ := crowded_at hne
    obtain ⟨rfl, rfl, -⟩ := crowded_at (heq ▸ hne)
    exact ⟨rfl, rfl⟩
  · intro z hz hz'
    have hlow : 5 ≤ z := hz
    have hhigh : z < 6 := hz'
    obtain rfl : z = 5 := by omega
    have hset : crowded.bit 5 ∈ crowded.zmap := by decide
    refine ⟨fun _ => ⟨2, .zone 0, ⟨by decide, (by omega : 0 < 9)⟩, rfl⟩, fun _ => hset⟩

/-- On a full disk `create_block` maps nothing: block 1 of the file stays a
hole. -/
theorem block_map_crowded : Good crowded ∧ crowded.file 2 = true ∧
    crowded.at 2 (dataPos 1) = 0 ∧ ∃ t, crowded.createBlock 2 1 = some (t, 0) := by
  have hb : 1 < maxBlock := by decide
  have hroom : room crowded = 0 := by
    rw [room, Finset.card_eq_zero, Finset.eq_empty_iff_forall_notMem]
    intro j hj
    obtain ⟨-, hclear, hlt⟩ := mem_freeBits.mp hj
    simp [crowded] at hclear hlt
    omega
  obtain ⟨t, y, heq, hr⟩ :=
    bmapIo_create (n := 2) good_crowded.fair (by decide) hb fun _ => true
  rw [bmapIo_true] at heq
  have hy : y = 0 := by
    refine hr.full.mpr (Or.inr ?_)
    rw [hroom]
    decide
  exact ⟨good_crowded, by decide, rfl, t, hy ▸ heq⟩

end Linux011.Fs.FileData
