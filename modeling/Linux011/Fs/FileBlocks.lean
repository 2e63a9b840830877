import Linux011.Fs.FileData

/-!
# Regular files — what is in a file

The byte of a file at a position, read through the zones of its inode, and what
the parts of a transfer do to it. From here on a file is a function from positions to
bytes, and how its zones hang together is not seen any more.

* `content` — the byte at a position; a hole is zeros;
* `fair_lose` — bits that stay set for no zone do not matter;
* `content_store` — a new zone changes no file, as it is cleared;
* `bmapIo_spec` — nor does `_bmap`, whatever it creates and wherever it fails;
* `content_putBytes` — bytes are put where they belong, and nowhere else;
* `truncate_kept` — `truncate`, which may not find all zones.
-/

namespace Linux011.Fs.FileData

open ZoneMap

/-- The blocks that a file can have. -/
def maxBlock : Nat := 7 + 512 + 512 * 512

/-- The place of a block of data. -/
def dataPos (block : Nat) : Pos :=
  if block < 7 then .zone block
  else if block - 7 < 512 then .entry (block - 7)
  else .leaf ((block - 7 - 512) >>> 9) ((block - 7 - 512) &&& 511)

/-- The place of an index block. -/
def IsIndex : Pos → Prop
  | .zone k => k = 7 ∨ k = 8
  | .mid _ => True
  | _ => False

/-- The byte of a file at a position. -/
def content (s : State) (n x : Nat) : Byte :=
  if s.at n (dataPos (x / blockSize)) = 0 then 0
  else byte s (s.at n (dataPos (x / blockSize))) (x % blockSize)

variable {s t : State} {n m z b x : Nat} {p q : Pos}

/-! ## Places -/

theorem shift_lt (hb : b < maxBlock) : (b - 7 - 512) >>> 9 < 512 := by
  rw [Nat.shiftRight_eq_div_pow]
  unfold maxBlock at hb
  omega

theorem mask_lt (a : Nat) : a &&& 511 < 512 := Nat.lt_succ_of_le Nat.and_le_right

theorem dataPos_valid (hb : b < maxBlock) : (dataPos b).Valid := by
  unfold dataPos
  split_ifs with h1 h2
  · exact (by omega : b < 9)
  · exact h2
  · exact ⟨shift_lt hb, mask_lt _⟩

theorem dataPos_not_index (b : Nat) : ¬ IsIndex (dataPos b) := by
  unfold dataPos
  split_ifs with h1 h2
  · exact fun h => by
      have h : b = 7 ∨ b = 8 := h
      omega
  · exact id
  · exact id

theorem split_eq {a c : Nat} (h1 : a >>> 9 = c >>> 9) (h2 : a &&& 511 = c &&& 511) : a = c := by
  have ha : a &&& 511 = a % 512 := Nat.and_two_pow_sub_one_eq_mod a 9
  have hc : c &&& 511 = c % 512 := Nat.and_two_pow_sub_one_eq_mod c 9
  rw [Nat.shiftRight_eq_div_pow, Nat.shiftRight_eq_div_pow] at h1
  omega

theorem dataPos_inj {a c : Nat} (h : dataPos a = dataPos c) : a = c := by
  unfold dataPos at h
  split_ifs at h with h1 h2 h3 h4 h5 h6
  · exact Pos.zone.inj h
  · have heq := Pos.entry.inj h
    omega
  · obtain ⟨h7, h8⟩ := Pos.leaf.inj h
    have heq := split_eq h7 h8
    omega

theorem up_index {c : Nat} (h : p.up = some (q, c)) : IsIndex q := by
  cases p <;> cases h
  · exact Or.inl rfl
  · exact Or.inr rfl
  · exact trivial

/-- What is at the places depends on the inodes and the index blocks. -/
theorem at_congr_index (hinode : t.inode = s.inode)
    (hblock : ∀ m r, s.Has m r → IsIndex r → s.at m r ≠ 0 → t.block (s.at m r) = s.block (s.at m r))
    (hq : s.Has m q) : t.at m q = s.at m q := by
  have hbelow : ∀ r c, s.Has m r → IsIndex r → t.below (s.at m r) c = s.below (s.at m r) c := by
    intro r c hr hindex
    unfold State.below
    split_ifs with hzero
    · rfl
    · rw [hblock m r hr hindex hzero]
  have hzone : ∀ k, t.at m (.zone k) = s.at m (.zone k) := by
    intro k
    show (t.inode m).zone k = (s.inode m).zone k
    rw [hinode]
  obtain ⟨hfile, hvalid⟩ := hq
  have hmid : ∀ c, t.at m (.mid c) = s.at m (.mid c) := by
    intro c
    rw [at_up (p := .mid c) rfl, at_up (p := .mid c) rfl, hzone]
    exact hbelow (.zone 8) c ⟨hfile, (by omega : 8 < 9)⟩ (Or.inr rfl)
  cases q with
  | zone k => exact hzone k
  | entry c =>
    rw [at_up (p := .entry c) rfl, at_up (p := .entry c) rfl, hzone]
    exact hbelow (.zone 7) c ⟨hfile, (by omega : 7 < 9)⟩ (Or.inl rfl)
  | mid c => exact hmid c
  | leaf c d =>
    rw [at_up (p := .leaf c d) rfl, at_up (p := .leaf c d) rfl, hmid]
    exact hbelow (.mid c) d ⟨hfile, hvalid.1⟩ trivial

/-- The accounts depend on what is at the places, and on the bitmap. -/
theorem fair_congr (h : Fair s) (hfile : ∀ m, t.file m = s.file m) (hat : ∀ m q, s.Has m q → t.at m q = s.at m q)
    (hfirst : t.firstdatazone = s.firstdatazone) (hnzones : t.nzones = s.nzones) (hzmap : t.zmap = s.zmap) : Fair t := by
  have hhas : ∀ m q, t.Has m q ↔ s.Has m q := fun m q => by
    unfold State.Has
    rw [hfile]
  have hbit : ∀ y, t.bit y = s.bit y := fun y => by
    unfold State.bit
    rw [hfirst]
  refine ⟨?_, ?_, fun m q hq hne => ?_, fun m q m' q' hq hq' hne heq => ?_, fun m q hq hne => ?_⟩
  · rw [hfirst]
    exact h.first
  · rw [hzmap]
    exact h.zero
  · rw [hhas] at hq
    rw [hat m q hq] at hne ⊢
    rw [hfirst, hnzones]
    exact h.range m q hq hne
  · rw [hhas] at hq hq'
    rw [hat m q hq] at hne heq
    rw [hat m' q' hq'] at heq
    exact h.once m q m' q' hq hq' hne heq
  · rw [hhas] at hq
    rw [hat m q hq] at hne ⊢
    rw [hbit, hzmap]
    exact h.held m q hq hne

/-- Where a volume has one zone for data, which is block 0 of file `f`. -/
theorem at_one {f z : Nat} (hzone : ∀ m k, s.zone m k = if m = f ∧ k = 0 then z else 0)
    (hne : s.at n q ≠ 0) : n = f ∧ q = .zone 0 ∧ s.at n q = z := by
  have hind : ∀ k, k ≠ 0 → s.zone n k = 0 := fun k hk => (hzone n k).trans (if_neg fun h => hk h.2)
  cases q with
  | zone k =>
    have hk : s.zone n k ≠ 0 := hne
    rw [hzone] at hk
    split_ifs at hk with hand
    · exact ⟨hand.1, congrArg Pos.zone hand.2, (hzone n k).trans (if_pos hand)⟩
    · exact absurd rfl hk
  | entry c => exact absurd (if_pos (hind 7 (by decide))) hne
  | mid c => exact absurd (if_pos (hind 8 (by decide))) hne
  | leaf c d =>
    have hmid : s.below (s.zone n 8) c = 0 := if_pos (hind 8 (by decide))
    exact absurd (if_pos hmid) hne

theorem fair_one {f z : Nat} (hzone : ∀ m k, s.zone m k = if m = f ∧ k = 0 then z else 0)
    (hfirst : 1 ≤ s.firstdatazone) (hzero : 0 ∈ s.zmap)
    (hrange : s.firstdatazone ≤ z ∧ z < s.nzones) (hset : s.bit z ∈ s.zmap) : Fair s := by
  refine ⟨hfirst, hzero, fun m q _ hne => ?_, fun m q m' q' _ _ hne heq => ?_, fun m q _ hne => ?_⟩
  · rw [(at_one hzone hne).2.2]
    exact hrange
  · obtain ⟨rfl, rfl, -⟩ := at_one hzone hne
    obtain ⟨rfl, rfl, -⟩ := at_one hzone (heq ▸ hne)
    exact ⟨rfl, rfl⟩
  · rw [(at_one hzone hne).2.2]
    exact hset

/-- A block of data is no index block. -/
theorem data_ne_index (h : Fair s) (hn : s.file n = true) (hb : b < maxBlock) (hz : s.at n (dataPos b) ≠ 0)
    (hq : s.Has m q) (hindex : IsIndex q) : s.at m q ≠ s.at n (dataPos b) := by
  intro heq
  obtain ⟨-, hpos⟩ := h.once n (dataPos b) m q ⟨hn, dataPos_valid hb⟩ hq hz heq.symm
  exact dataPos_not_index b (hpos ▸ hindex)

/-! ## Zones that are added -/

theorem content_congr (hat : t.at m (dataPos (x / blockSize)) = s.at m (dataPos (x / blockSize)))
    (hblock : s.at m (dataPos (x / blockSize)) ≠ 0 → t.block (s.at m (dataPos (x / blockSize))) =
      s.block (s.at m (dataPos (x / blockSize)))) : content t m x = content s m x := by
  unfold content
  rw [hat]
  split_ifs with hzero
  · rfl
  · unfold byte
    rw [hblock hzero]

/-- **A new zone changes no file.** -/
theorem content_store (h : Good s) (hp : s.Has n p) (hup : ∀ q b, p.up = some (q, b) → s.at n q ≠ 0)
    (h₀ : s.at n p = 0) (hz : Free s z) (hm : s.file m = true) (hx : x / blockSize < maxBlock) :
    content ((s.take z).store n p z) m x = content s m x := by
  have hhas : s.Has m (dataPos (x / blockSize)) := ⟨hm, dataPos_valid hx⟩
  have hat := at_store h hp hup h₀ hz hhas
  have hslot : (s.take z).slot n p = s.slot n p := by
    unfold State.slot
    cases hr : p.up with
    | none => rfl
    | some y => exact congrArg (fun w => some (w, y.2)) (take_at h hz ⟨hp.1, (valid_up hr hp.2).1⟩)
  by_cases hnew : m = n ∧ dataPos (x / blockSize) = p
  · -- the place was empty, and the block is cleared
    obtain ⟨rfl, rfl⟩ := hnew
    rw [if_pos ⟨rfl, rfl⟩] at hat
    have hempty : ∀ c, ((s.take z).store m (dataPos (x / blockSize)) z).block z c = 0 := by
      intro c
      rw [store_block, hslot, if_neg]
      · show Function.update s.block z (fun _ => 0) z c = 0
        rw [Function.update_self]
      · intro heq
        obtain ⟨r, hr, hw⟩ := slot_iff.mp heq
        exact h.unowned hz ⟨hp.1, (valid_up hr hp.2).1⟩ hw
    unfold content
    rw [hat, if_pos h₀]
    split_ifs
    · rfl
    · unfold byte
      rw [hempty]
      split_ifs <;> rfl
  · rw [if_neg hnew] at hat
    refine content_congr hat fun hne => funext fun c => ?_
    rw [store_block, hslot, if_neg]
    · show Function.update s.block z (fun _ => 0) _ c = _
      rw [Function.update_of_ne (h.unowned hz hhas)]
    · intro heq
      obtain ⟨r, hr, hw⟩ := slot_iff.mp heq
      exact data_ne_index h.fair hm hx hne ⟨hp.1, (valid_up hr hp.2).1⟩ (up_index hr) hw

/-- Bits that are set for no zone at a place are cleared. -/
def lose (s : State) (lost : Finset Nat) : State := { s with zmap := s.zmap \ lost }

/-- **Fair accounts** are good ones, but for bits that stay set. -/
theorem fair_lose (h : Fair s) : ∃ lost ⊆ s.zmap, Good (lose s lost) := by
  classical
  have hpos := h.first
  let lost := s.zmap.filter fun j => j ≠ 0 ∧ ∀ m q, s.Has m q → s.at m q ≠ 0 → s.bit (s.at m q) ≠ j
  refine ⟨lost, Finset.filter_subset .., h.first, ?_, h.range, h.once, fun y hy hy' => ?_⟩
  · exact Finset.mem_sdiff.mpr ⟨h.zero, fun hmem => (Finset.mem_filter.mp hmem).2.1 rfl⟩
  have hlow : s.firstdatazone ≤ y := hy
  constructor
  · intro hmem
    obtain ⟨hset, hkeep⟩ := Finset.mem_sdiff.mp hmem
    by_contra hnone
    refine hkeep (Finset.mem_filter.mpr ⟨hset, ?_, fun m q hq hne heq => hnone ⟨m, q, hq, ?_⟩⟩)
    · show y - (s.firstdatazone - 1) ≠ 0
      omega
    · exact bit_inj hpos hlow (h.range m q hq hne).1 heq
  · rintro ⟨m, q, hq, hat⟩
    have hat : s.at m q = y := hat
    subst hat
    have hne : s.at m q ≠ 0 := by omega
    exact Finset.mem_sdiff.mpr ⟨h.held m q hq hne, fun hmem => (Finset.mem_filter.mp hmem).2.2 m q hq hne rfl⟩

theorem fair_of_lose {lost : Finset Nat} (h : Good (lose s lost)) : Fair s := by
  refine ⟨h.first, (Finset.mem_sdiff.mp h.zero).1, h.range, h.once, fun m q hq hne => ?_⟩
  exact (Finset.mem_sdiff.mp (h.fair.held m q hq hne)).1

theorem lose_free {lost : Finset Nat} (hz : Free s z) : Free (lose s lost) z :=
  ⟨hz.range, fun hmem => hz.clear (Finset.mem_sdiff.mp hmem).1⟩

theorem lose_take {lost : Finset Nat} (hsub : lost ⊆ s.zmap) (hz : Free s z) :
    lose (s.take z) lost = (lose s lost).take z := by
  unfold lose State.take
  dsimp only
  rw [Finset.insert_sdiff_of_notMem _ fun hmem => hz.clear (hsub hmem)]
  rfl

theorem lose_store (s : State) (n : Nat) (p : Pos) (z : Nat) (lost : Finset Nat) :
    lose (s.store n p z) lost = (lose s lost).store n p z := by
  cases p <;> rfl

/-- **A new zone**, where other bits stay set. -/
theorem fair_store (h : Fair s) (hp : s.Has n p) (hup : ∀ q b, p.up = some (q, b) → s.at n q ≠ 0)
    (h₀ : s.at n p = 0) (hz : Free s z) :
    Fair ((s.take z).store n p z) ∧ ((s.take z).store n p z).at n p = z ∧
      ∀ m x, s.file m = true → x / blockSize < maxBlock → content ((s.take z).store n p z) m x = content s m x := by
  obtain ⟨lost, hsub, hgood⟩ := fair_lose h
  have hfree : Free (lose s lost) z := lose_free hz
  obtain ⟨hgood', hat, -⟩ := good_store hgood hp hup h₀ hfree
  have hcontent := fun m x (hm : s.file m = true) (hx : x / blockSize < maxBlock) =>
    content_store hgood hp hup h₀ hfree hm hx
  rw [← lose_take hsub hz, ← lose_store] at hgood' hat hcontent
  exact ⟨fair_of_lose hgood', hat, hcontent⟩

theorem fair_take (h : Fair s) (hz : Free s z) (hq : s.Has m q) : (s.take z).at m q = s.at m q := by
  obtain ⟨lost, hsub, hgood⟩ := fair_lose h
  have htake := take_at hgood (lose_free hz) hq
  rw [← lose_take hsub hz] at htake
  exact htake

theorem fair_newBlock (h : Fair s) :
    (∃ t, s.newBlock = (t, 0) ∧ Fair t ∧ t.inode = s.inode ∧ t.block = s.block) ∨
      ∃ z, z ≠ 0 ∧ Free s z ∧ s.newBlock = (s.take z, z) := by
  rcases newBlock_cases h.first h.zero with heq | ⟨j, -, heq⟩ | htaken
  · exact Or.inl ⟨s, heq, h, rfl, rfl⟩
  · exact Or.inl ⟨_, heq, ⟨h.first, Finset.mem_insert_of_mem h.zero, h.range, h.once,
      fun m q hq hne => Finset.mem_insert_of_mem (h.held m q hq hne)⟩, rfl, rfl⟩
  · exact Or.inr htaken

/-- The files are as they were, and the accounts in order. -/
structure Kept (s t : State) : Prop where
  fair    : Fair t
  mode    : ∀ m, (t.inode m).mode = (s.inode m).mode
  content : ∀ m x, s.file m = true → x / blockSize < maxBlock → content t m x = content s m x

theorem file_congr (h : (t.inode m).mode = (s.inode m).mode) : t.file m = s.file m := by
  unfold State.file
  rw [h]

theorem Kept.file (h : Kept s t) (m : Nat) : t.file m = s.file m := file_congr (h.mode m)

theorem Kept.refl (h : Fair s) : Kept s s := ⟨h, fun _ => rfl, fun _ _ _ _ => rfl⟩

theorem Kept.trans {u : State} (h1 : Kept s t) (h2 : Kept t u) : Kept s u := by
  refine ⟨h2.fair, fun m => (h2.mode m).trans (h1.mode m), fun m x hm hx => ?_⟩
  rw [h2.content m x ((h1.file m).trans hm) hx, h1.content m x hm hx]

theorem kept_same (h : Fair t) (hsame : t.inode = s.inode ∧ t.block = s.block) : Kept s t := by
  obtain ⟨hat, -⟩ := at_congr hsame
  refine ⟨h, fun m => by rw [hsame.1], fun m x _ _ => content_congr (hat m _) fun _ => ?_⟩
  rw [hsame.2]

theorem setZone_mode (s : State) (n k z m : Nat) : ((s.setZone n k z).inode m).mode = (s.inode m).mode := by
  unfold State.setZone
  dsimp only
  by_cases hm : m = n
  · subst hm
    rw [Function.update_self]
  · rw [Function.update_of_ne hm]

theorem fillZone_kept (h : Fair s) {k : Nat} (hp : s.Has n (.zone k)) (create : Bool) :
    ∃ t y, s.fillZone n k create = (t, y) ∧ Kept s t ∧ (y ≠ 0 → t.at n (.zone k) = y) := by
  unfold State.fillZone
  split_ifs with hfill
  · rw [Bool.and_eq_true, beq_iff_eq] at hfill
    rcases fair_newBlock h with ⟨t, hnew, hfair, hinode, hblock⟩ | ⟨z, -, hz, hnew⟩
    · rw [hnew]
      have hzone : t.zone n k = 0 := by
        unfold State.zone
        rw [hinode]
        exact hfill.2
      dsimp only
      rw [setZone_self hzone]
      exact ⟨t, 0, rfl, kept_same hfair ⟨hinode, hblock⟩, fun hne => absurd rfl hne⟩
    · rw [hnew]
      have hup : ∀ q b, (Pos.zone k).up = some (q, b) → s.at n q ≠ 0 := fun _ _ hr => by cases hr
      obtain ⟨hfair, hat, hcontent⟩ := fair_store h hp hup hfill.2 hz
      exact ⟨_, z, rfl, ⟨hfair, setZone_mode (s.take z) n k z, hcontent⟩, fun _ => hat⟩
  · exact ⟨s, _, rfl, .refl h, fun _ => rfl⟩

theorem fillEntry_kept (h : Fair s) (hp : s.Has n p) (hup : p.up = some (q, b)) (hq : s.at n q ≠ 0)
    (create : Bool) : ∃ t y, s.fillEntry (s.at n q) b create = (t, y) ∧ Kept s t ∧ (y ≠ 0 → t.at n p = y) := by
  have hzone : s.at n p = s.block (s.at n q) b := by
    rw [at_up hup]
    exact if_neg hq
  have hhas : s.Has n q := ⟨hp.1, (valid_up hup hp.2).1⟩
  unfold State.fillEntry
  split_ifs with hfill
  · rw [Bool.and_eq_true, beq_iff_eq] at hfill
    rcases fair_newBlock h with ⟨t, hnew, hfair, hsame⟩ | ⟨z, hz₀, hz, hnew⟩
    · rw [hnew]
      exact ⟨t, 0, rfl, kept_same hfair hsame, fun hne => absurd rfl hne⟩
    · rw [hnew]
      dsimp only
      rw [if_neg hz₀]
      have hup' : ∀ r c, p.up = some (r, c) → s.at n r ≠ 0 := by
        intro r c hr
        cases hup.symm.trans hr
        exact hq
      obtain ⟨hfair, hat, hcontent⟩ := fair_store h hp hup' (hzone.trans hfill.2) hz
      rw [store_eq hup, fair_take h hz hhas] at hfair hat hcontent
      exact ⟨_, z, rfl, ⟨hfair, fun _ => rfl, hcontent⟩, fun _ => hat⟩
  · exact ⟨s, _, rfl, .refl h, fun _ => hzone⟩

/-- **`_bmap`**, whatever it creates and wherever it fails: no file is changed. -/
theorem bmapIo_spec (h : Fair s) (hn : s.file n = true) {create : Bool} {ok : Nat → Bool} {y : Nat}
    (heq : bmapIo s n b create ok = some (t, y)) : b < maxBlock ∧ Kept s t ∧ (y ≠ 0 → t.at n (dataPos b) = y) := by
  unfold bmapIo at heq
  by_cases hbig : 7 + 512 + 512 * 512 ≤ b
  · rw [if_pos hbig] at heq
    cases heq
  rw [if_neg hbig] at heq
  have hb : b < maxBlock := Nat.lt_of_not_le hbig
  refine ⟨hb, ?_⟩
  -- direct, indirect, doubly indirect
  by_cases hdirect : b < 7
  · rw [if_pos hdirect] at heq
    obtain ⟨t', y', hfill, hkept, hat⟩ := fillZone_kept (k := b) h ⟨hn, (by omega : b < 9)⟩ create
    rw [hfill] at heq
    cases heq
    have hpos : dataPos b = .zone b := if_pos hdirect
    rw [hpos]
    exact ⟨hkept, hat⟩
  rw [if_neg hdirect] at heq
  by_cases hind : b - 7 < 512
  · rw [if_pos hind] at heq
    obtain ⟨t₁, z, hfill, hkept, hat⟩ := fillZone_kept (k := 7) h ⟨hn, (by omega : 7 < 9)⟩ create
    rw [hfill] at heq
    dsimp only at heq
    split_ifs at heq with hz hok
    · cases heq
      exact ⟨hkept, fun hne => absurd rfl hne⟩
    · cases heq
      exact ⟨hkept, fun hne => absurd rfl hne⟩
    · have hn₁ : t₁.file n = true := (hkept.file n).trans hn
      have hpos : dataPos b = .entry (b - 7) := by
        unfold dataPos
        rw [if_neg hdirect, if_pos hind]
      obtain ⟨t₂, y₂, hfill₂, hkept₂, hat₂⟩ := fillEntry_kept (p := .entry (b - 7)) hkept.fair ⟨hn₁, hind⟩ rfl
        ((hat hz).trans_ne hz) create
      rw [hat hz] at hfill₂
      rw [hfill₂] at heq
      cases heq
      rw [hpos]
      exact ⟨hkept.trans hkept₂, hat₂⟩
  · rw [if_neg hind] at heq
    dsimp only at heq
    obtain ⟨t₁, z, hfill, hkept, hat⟩ := fillZone_kept (k := 8) h ⟨hn, (by omega : 8 < 9)⟩ create
    rw [hfill] at heq
    dsimp only at heq
    by_cases hz : z = 0
    · rw [if_pos hz] at heq
      cases heq
      exact ⟨hkept, fun hne => absurd rfl hne⟩
    rw [if_neg hz] at heq
    by_cases hok : ok 0 = false
    · rw [if_pos hok] at heq
      cases heq
      exact ⟨hkept, fun hne => absurd rfl hne⟩
    have hn₁ : t₁.file n = true := (hkept.file n).trans hn
    have hpos : dataPos b = .leaf ((b - 7 - 512) >>> 9) ((b - 7 - 512) &&& 511) := by
      unfold dataPos
      rw [if_neg hdirect, if_neg hind]
    obtain ⟨t₂, i, hfill₂, hkept₂, hat₂⟩ := fillEntry_kept (p := .mid ((b - 7 - 512) >>> 9)) hkept.fair
      ⟨hn₁, shift_lt hb⟩ rfl ((hat hz).trans_ne hz) create
    rw [hat hz] at hfill₂
    rw [if_neg hok, hfill₂] at heq
    dsimp only at heq
    split_ifs at heq with hi hok'
    · cases heq
      exact ⟨hkept.trans hkept₂, fun hne => absurd rfl hne⟩
    · cases heq
      exact ⟨hkept.trans hkept₂, fun hne => absurd rfl hne⟩
    · have hn₂ : t₂.file n = true := (hkept₂.file n).trans hn₁
      obtain ⟨t₃, y₃, hfill₃, hkept₃, hat₃⟩ :=
        fillEntry_kept (p := .leaf ((b - 7 - 512) >>> 9) ((b - 7 - 512) &&& 511)) hkept₂.fair
          ⟨hn₂, shift_lt hb, mask_lt _⟩ rfl ((hat₂ hi).trans_ne hi) create
      rw [hat₂ hi] at hfill₃
      rw [hfill₃] at heq
      cases heq
      rw [hpos]
      exact ⟨(hkept.trans hkept₂).trans hkept₃, hat₃⟩

/-- Without creation, the zone at the place, if the index blocks can be read. -/
theorem bmapIo_read {ok : Nat → Bool} {y : Nat} (hok : ok 0 = true ∧ ok 1 = true)
    (heq : bmapIo s n b false ok = some (t, y)) : y = s.at n (dataPos b) := by
  have hzone : ∀ k, s.fillZone n k false = (s, s.zone n k) := fun _ => rfl
  have hentry : ∀ w c, s.fillEntry w c false = (s, s.block w c) := fun _ _ => rfl
  unfold bmapIo at heq
  rw [hok.1, hok.2] at heq
  simp only [hzone, hentry, Bool.true_eq_false, if_false] at heq
  unfold dataPos
  by_cases hbig : 7 + 512 + 512 * 512 ≤ b
  · rw [if_pos hbig] at heq
    cases heq
  rw [if_neg hbig] at heq
  by_cases hdirect : b < 7
  · rw [if_pos hdirect] at heq ⊢
    cases heq
    rfl
  rw [if_neg hdirect] at heq ⊢
  by_cases hind : b - 7 < 512
  · rw [if_pos hind] at heq ⊢
    show y = if s.zone n 7 = 0 then 0 else s.block (s.zone n 7) (b - 7)
    split_ifs at heq ⊢ <;> cases heq <;> rfl
  · rw [if_neg hind] at heq ⊢
    show y = s.below (s.below (s.zone n 8) _) _
    unfold State.below
    by_cases hz : s.zone n 8 = 0
    · rw [if_pos hz] at heq
      cases heq
      rw [if_pos hz, if_pos rfl]
    · rw [if_neg hz] at heq ⊢
      split_ifs at heq ⊢ <;> cases heq <;> rfl

theorem bmapIo_total (s : State) (n : Nat) (hb : b < maxBlock) (create : Bool) (ok : Nat → Bool) :
    ∃ t y, bmapIo s n b create ok = some (t, y) := by
  have hbig : ¬ 7 + 512 + 512 * 512 ≤ b := Nat.not_le_of_lt hb
  unfold bmapIo
  rw [if_neg hbig]
  dsimp only
  split_ifs <;> exact ⟨_, _, rfl⟩

/-! ## Bytes that are put -/

theorem byte_setByte (s : State) (z i : Nat) (v : Byte) (y j : Nat) :
    byte (setByte s z i v) y j = if y = z ∧ j = i then v else byte s y j := by
  have hv := v.isLt
  unfold byte setByte State.setEntry
  dsimp only
  by_cases hy : y = z
  · subst hy
    rw [Function.update_self]
    by_cases hword : j / 2 = i / 2
    · rw [hword, Function.update_self]
      by_cases hij : j = i
      · subst hij
        rw [if_pos (⟨rfl, rfl⟩ : y = y ∧ j = j)]
        apply Fin.ext
        show (if j % 2 = 0 then _ else _) % 256 = v.val
        split_ifs <;> omega
      · rw [if_neg (show ¬(y = y ∧ j = i) from fun hand => hij hand.2)]
        apply Fin.ext
        show (if j % 2 = 0 then _ else _) % 256 = (if j % 2 = 0 then _ else _) % 256
        split_ifs <;> omega
    · have hij : ¬(y = y ∧ j = i) := by
        rintro ⟨-, rfl⟩
        exact hword rfl
      rw [Function.update_of_ne hword, if_neg hij]
  · rw [Function.update_of_ne hy, if_neg (show ¬(y = z ∧ j = i) from fun hand => hy hand.1)]

theorem byte_putBytes (s : State) (z i : Nat) (buf : List Byte) (y j : Nat) :
    byte (putBytes s z i buf) y j = if y = z ∧ i ≤ j ∧ j < i + buf.length then buf.getD (j - i) 0 else byte s y j := by
  induction buf generalizing s i with
  | nil => rw [putBytes, if_neg (by rw [List.length_nil]; omega)]
  | cons v buf ih =>
    rw [putBytes, ih, byte_setByte, List.length_cons]
    by_cases hij : j = i
    · subst hij
      rw [if_neg (by omega)]
      by_cases hy : y = z
      · rw [if_pos ⟨hy, rfl⟩, if_pos ⟨hy, by omega, by omega⟩, Nat.sub_self]
        rfl
      · rw [if_neg fun hand => hy hand.1, if_neg fun hand => hy hand.1]
    · rw [if_neg fun hand : y = z ∧ j = i => hij hand.2]
      by_cases hin : y = z ∧ i + 1 ≤ j ∧ j < i + 1 + buf.length
      · rw [if_pos hin, if_pos ⟨hin.1, by omega, by omega⟩, show j - i = j - (i + 1) + 1 by omega]
        rfl
      · rw [if_neg hin, if_neg]
        rintro ⟨h1, h2, h3⟩
        exact hin ⟨h1, by omega, by omega⟩

/-- Only one block is written. -/
theorem putBytes_frame (s : State) (z i : Nat) (buf : List Byte) :
    (putBytes s z i buf).inode = s.inode ∧ (putBytes s z i buf).zmap = s.zmap ∧
      (putBytes s z i buf).firstdatazone = s.firstdatazone ∧ (putBytes s z i buf).nzones = s.nzones ∧
      ∀ w, w ≠ z → (putBytes s z i buf).block w = s.block w := by
  induction buf generalizing s i with
  | nil => exact ⟨rfl, rfl, rfl, rfl, fun _ _ => rfl⟩
  | cons v buf ih =>
    obtain ⟨h1, h2, h3, h4, h5⟩ := ih (setByte s z i v) (i + 1)
    refine ⟨h1, h2, h3, h4, fun w hw => (h5 w hw).trans ?_⟩
    exact Function.update_of_ne hw ..

/-- The bytes of `buf` from position `p` on. -/
def overwrite (f : Nat → Byte) (p : Nat) (buf : List Byte) (x : Nat) : Byte :=
  if p ≤ x ∧ x < p + buf.length then buf.getD (x - p) 0 else f x

/-- **Bytes are put** into the file at the position that the block and the offset
stand for, and no other file is changed. -/
theorem content_putBytes (h : Fair s) (hn : s.file n = true) {pos : Nat} (hb : pos / blockSize < maxBlock)
    (hz : s.at n (dataPos (pos / blockSize)) = z) (hz₀ : z ≠ 0) (buf : List Byte)
    (hlen : pos % blockSize + buf.length ≤ blockSize) :
    Fair (putBytes s z (pos % blockSize) buf) ∧ (putBytes s z (pos % blockSize) buf).inode = s.inode ∧
      (∀ m x, m ≠ n → s.file m = true → x / blockSize < maxBlock →
        content (putBytes s z (pos % blockSize) buf) m x = content s m x) ∧
      ∀ x, x / blockSize < maxBlock →
        content (putBytes s z (pos % blockSize) buf) n x = overwrite (content s n) pos buf x := by
  subst hz
  obtain ⟨hinode, hzmap, hfirst, hnzones, hblock⟩ := putBytes_frame s (s.at n (dataPos (pos / blockSize)))
    (pos % blockSize) buf
  have hbyte := byte_putBytes s (s.at n (dataPos (pos / blockSize))) (pos % blockSize) buf
  generalize putBytes s (s.at n (dataPos (pos / blockSize))) (pos % blockSize) buf = t at *
  have hat : ∀ m q, s.Has m q → t.at m q = s.at m q := fun m q hq =>
    at_congr_index hinode (fun m r hr hindex _ => hblock _ (data_ne_index h hn hb hz₀ hr hindex)) hq
  have hfile : ∀ m, t.file m = s.file m := fun m => by
    unfold State.file
    rw [hinode]
  refine ⟨fair_congr h hfile hat hfirst hnzones hzmap, hinode, ?_, ?_⟩
  · intro m x hmn hm hx
    have hhas : s.Has m (dataPos (x / blockSize)) := ⟨hm, dataPos_valid hx⟩
    refine content_congr (hat m _ hhas) fun hne => hblock _ fun heq => hmn ?_
    exact (h.once m _ n _ hhas ⟨hn, dataPos_valid hb⟩ hne heq).1
  · intro x hx
    have hhas : s.Has n (dataPos (x / blockSize)) := ⟨hn, dataPos_valid hx⟩
    unfold overwrite
    by_cases hsame : x / blockSize = pos / blockSize
    · unfold content
      rw [hat n _ hhas, hsame, if_neg hz₀, if_neg hz₀, hbyte]
      unfold blockSize at *
      by_cases hin : pos ≤ x ∧ x < pos + buf.length
      · rw [if_pos hin, if_pos ⟨rfl, by omega, by omega⟩, show x % 1024 - pos % 1024 = x - pos by omega]
      · rw [if_neg hin, if_neg (by rintro ⟨-, h1, h2⟩; omega)]
    · have hout : ¬(pos ≤ x ∧ x < pos + buf.length) := by
        unfold blockSize at *
        omega
      rw [if_neg hout]
      refine content_congr (hat n _ hhas) fun hne => hblock _ fun heq => hsame ?_
      exact dataPos_inj (h.once n _ n _ hhas ⟨hn, dataPos_valid hb⟩ hne heq).2

/-! ## Zones that are freed -/

/-- What `truncate` sees: an index block that cannot be read names no zone. -/
def mask (ok : Nat → Bool) (s : State) : State := { s with block := fun w => if ok w then s.block w else fun _ => 0 }

variable {ok : Nat → Bool} {f g : State → Nat → Option State}

theorem mask_at (ok : Nat → Bool) (s : State) (m : Nat) (q : Pos) :
    (mask ok s).at m q = s.at m q ∨ (mask ok s).at m q = 0 := by
  have hbelow : ∀ w c, (mask ok s).below w c = s.below w c ∨ (mask ok s).below w c = 0 := by
    intro w c
    unfold State.below mask
    dsimp only
    split_ifs
    · exact Or.inl rfl
    · exact Or.inl rfl
    · exact Or.inr rfl
  cases q with
  | zone k => exact Or.inl rfl
  | entry c => exact hbelow _ c
  | mid c => exact hbelow _ c
  | leaf c d =>
    rcases hbelow (s.zone m 8) c with hmid | hmid
    · show (mask ok s).below ((mask ok s).below (s.zone m 8) c) d = s.below (s.below (s.zone m 8) c) d ∨
        (mask ok s).below ((mask ok s).below (s.zone m 8) c) d = 0
      rw [hmid]
      exact hbelow _ d
    · refine Or.inr ?_
      show (mask ok s).below ((mask ok s).below (s.zone m 8) c) d = 0
      rw [hmid]
      exact if_pos rfl

theorem mask_at_of_ne (hne : (mask ok s).at m q ≠ 0) : (mask ok s).at m q = s.at m q :=
  (mask_at ok s m q).resolve_right hne

theorem fair_mask (ok : Nat → Bool) (h : Fair s) : Fair (mask ok s) := by
  refine ⟨h.first, h.zero, fun m q hq hne => ?_, fun m q m' q' hq hq' hne heq => ?_, fun m q hq hne => ?_⟩
  · have hsame := mask_at_of_ne hne
    rw [hsame] at hne ⊢
    exact h.range m q hq hne
  · have hsame := mask_at_of_ne hne
    have hsame' := mask_at_of_ne (heq ▸ hne)
    rw [hsame] at hne heq
    rw [hsame'] at heq
    exact h.once m q m' q' hq hq' hne heq
  · have hsame := mask_at_of_ne hne
    rw [hsame] at hne ⊢
    exact h.held m q hq hne

theorem mask_freeBlock (s : State) (z : Nat) : (mask ok s).freeBlock z = (s.freeBlock z).map (mask ok) := by
  unfold State.freeBlock mask State.bit
  dsimp only
  split_ifs <;> rfl

theorem mask_each (hf : ∀ s z, g (mask ok s) z = (f s z).map (mask ok)) (s : State) (zs : List Nat) :
    (mask ok s).each g zs = (s.each f zs).map (mask ok) := by
  induction zs generalizing s with
  | nil => rfl
  | cons z zs ih =>
    rw [each_cons, each_cons]
    by_cases hz : z = 0
    · rw [if_pos hz, if_pos hz]
      exact ih s
    · rw [if_neg hz, if_neg hz, hf]
      cases f s z with
      | none => rfl
      | some t => exact ih t

theorem mask_entries (hf : ∀ s z, g (mask ok s) z = (f s z).map (mask ok)) (s : State) (w : Nat) :
    (mask ok s).each g ((mask ok s).entries w) = (eachEntry f ok s w).map (mask ok) := by
  have hblock : (mask ok s).block w = if ok w then s.block w else fun _ => 0 := rfl
  unfold eachEntry State.entries
  rw [hblock]
  by_cases hok : ok w
  · rw [if_pos hok, if_pos hok]
    exact mask_each hf s _
  · rw [if_neg hok, if_neg hok]
    refine each_zeros _ _ fun z hz => ?_
    obtain ⟨c, -, rfl⟩ := List.mem_map.mp hz
    rfl

theorem mask_freeInd (s : State) (w : Nat) : (mask ok s).freeInd w = (freeInd ok s w).map (mask ok) := by
  unfold State.freeInd freeInd
  by_cases hw : w = 0
  · rw [if_pos hw, if_pos hw]
    rfl
  · rw [if_neg hw, if_neg hw, mask_entries mask_freeBlock]
    cases eachEntry State.freeBlock ok s w with
    | none => rfl
    | some t => exact mask_freeBlock t w

theorem mask_freeDind (s : State) (w : Nat) : (mask ok s).freeDind w = (freeDind ok s w).map (mask ok) := by
  unfold State.freeDind freeDind
  by_cases hw : w = 0
  · rw [if_pos hw, if_pos hw]
    rfl
  · rw [if_neg hw, if_neg hw, mask_entries mask_freeInd]
    cases eachEntry (freeInd ok) ok s w with
    | none => rfl
    | some t => exact mask_freeBlock t w

theorem freeDirect_cons (s : State) (n k : Nat) (ks : List Nat) : s.freeDirect n (k :: ks) =
    (if s.zone n k = 0 then some s else (s.freeBlock (s.zone n k)).map (·.setZone n k 0)).bind
      fun t => t.freeDirect n ks := rfl

theorem mask_freeDirect (s : State) (n : Nat) (ks : List Nat) :
    (mask ok s).freeDirect n ks = (s.freeDirect n ks).map (mask ok) := by
  induction ks generalizing s with
  | nil => rfl
  | cons k ks ih =>
    have hzone : (mask ok s).zone n k = s.zone n k := rfl
    rw [freeDirect_cons, freeDirect_cons, hzone, mask_freeBlock]
    split_ifs
    · exact ih s
    · cases s.freeBlock (s.zone n k) with
      | none => rfl
      | some t => exact ih (t.setZone n k 0)

theorem mask_truncate (s : State) (n : Nat) : (mask ok s).truncate n = (truncate ok s n).map (mask ok) := by
  have hfile : (mask ok s).file n = s.file n := rfl
  unfold State.truncate truncate
  rw [hfile]
  split_ifs
  · rw [mask_freeDirect]
    cases s.freeDirect n (List.range 7) with
    | none => rfl
    | some t₁ =>
      show ((mask ok t₁).freeInd (t₁.zone n 7)).bind _ = ((freeInd ok t₁ (t₁.zone n 7)).bind _).map (mask ok)
      rw [mask_freeInd]
      cases freeInd ok t₁ (t₁.zone n 7) with
      | none => rfl
      | some t₂ =>
        show ((mask ok t₂).freeDind (t₂.zone n 8)).bind _ = ((freeDind ok t₂ (t₂.zone n 8)).bind _).map (mask ok)
        rw [mask_freeDind]
        cases freeDind ok t₂ (t₂.zone n 8) <;> rfl
  · rfl

/-- No block is written, and no mode. -/
def Frame (s t : State) : Prop := t.block = s.block ∧ ∀ m, (t.inode m).mode = (s.inode m).mode

theorem Frame.trans {u : State} (h1 : Frame s t) (h2 : Frame t u) : Frame s u :=
  ⟨h2.1.trans h1.1, fun m => (h2.2 m).trans (h1.2 m)⟩

theorem frame_freeBlock (h : s.freeBlock z = some t) : Frame s t := by
  rw [freeBlock_some h]
  exact ⟨rfl, fun _ => rfl⟩

theorem frame_setZone (s : State) (n k z : Nat) : Frame s (s.setZone n k z) := ⟨rfl, setZone_mode s n k z⟩

theorem frame_each (hf : ∀ s z t, f s z = some t → Frame s t) {zs : List Nat} (h : s.each f zs = some t) :
    Frame s t := by
  induction zs generalizing s with
  | nil =>
    cases h
    exact ⟨rfl, fun _ => rfl⟩
  | cons z zs ih =>
    rw [each_cons] at h
    by_cases hz : z = 0
    · rw [if_pos hz] at h
      exact ih h
    · rw [if_neg hz] at h
      obtain ⟨u, hu, h⟩ := Option.bind_eq_some_iff.mp h
      exact (hf s z u hu).trans (ih h)

theorem frame_entries (hf : ∀ s z t, f s z = some t → Frame s t) {w : Nat}
    (h : (if w = 0 then some s else (eachEntry f ok s w).bind fun t => t.freeBlock w) = some t) : Frame s t := by
  unfold eachEntry at h
  by_cases hw : w = 0
  · rw [if_pos hw] at h
    cases h
    exact ⟨rfl, fun _ => rfl⟩
  · rw [if_neg hw] at h
    obtain ⟨u, hu, h⟩ := Option.bind_eq_some_iff.mp h
    refine Frame.trans ?_ (frame_freeBlock h)
    split_ifs at hu
    · exact frame_each hf hu
    · cases hu
      exact ⟨rfl, fun _ => rfl⟩

theorem frame_freeInd (s : State) (w : Nat) (t : State) (h : freeInd ok s w = some t) : Frame s t :=
  frame_entries (fun _ _ _ => frame_freeBlock) h

theorem frame_freeDind (s : State) (w : Nat) (t : State) (h : freeDind ok s w = some t) : Frame s t :=
  frame_entries frame_freeInd h

theorem frame_freeDirect {ks : List Nat} (h : s.freeDirect n ks = some t) : Frame s t := by
  induction ks generalizing s with
  | nil =>
    cases h
    exact ⟨rfl, fun _ => rfl⟩
  | cons k ks ih =>
    rw [freeDirect_cons] at h
    obtain ⟨u, hu, h⟩ := Option.bind_eq_some_iff.mp h
    refine Frame.trans ?_ (ih h)
    split_ifs at hu
    · cases hu
      exact ⟨rfl, fun _ => rfl⟩
    · obtain ⟨v, hv, rfl⟩ := Option.map_eq_some_iff.mp hu
      exact (frame_freeBlock hv).trans (frame_setZone v n k 0)

theorem frame_truncate (h : truncate ok s n = some t) : Frame s t := by
  unfold truncate at h
  split_ifs at h
  · obtain ⟨t₁, h₁, h⟩ := Option.bind_eq_some_iff.mp h
    obtain ⟨t₂, h₂, h⟩ := Option.bind_eq_some_iff.mp h
    obtain ⟨t₃, h₃, h⟩ := Option.bind_eq_some_iff.mp h
    cases h
    have hzones : Frame s t₃ := ((frame_freeDirect h₁).trans (frame_freeInd _ _ _ h₂)).trans (frame_freeDind _ _ _ h₃)
    exact (hzones.trans (frame_setZone _ n 7 0)).trans (frame_setZone _ n 8 0)
  · cases h
    exact ⟨rfl, fun _ => rfl⟩

/-- **`truncate`**: the file is empty and the others are as they were. The zones
behind an index block that cannot be read stay marked. -/
theorem truncate_kept (h : Fair s) (hn : s.file n = true) (ok : Nat → Bool) :
    ∃ t, truncate ok s n = some t ∧ Fair t ∧ (∀ m, (t.inode m).mode = (s.inode m).mode) ∧
      (∀ m x, m ≠ n → content t m x = content s m x) ∧ ∀ x, x / blockSize < maxBlock → content t n x = 0 := by
  obtain ⟨t', heq, hfirst, hnzones, -, hother, hempty, hzmap⟩ := truncate_spec (fair_mask ok h) hn
  rw [mask_truncate] at heq
  obtain ⟨t, ht, rfl⟩ := Option.map_eq_some_iff.mp heq
  obtain ⟨hblock, hmode⟩ := frame_truncate ht
  replace hfirst : t.firstdatazone = s.firstdatazone := hfirst
  replace hnzones : t.nzones = s.nzones := hnzones
  replace hother : ∀ m, m ≠ n → t.inode m = s.inode m := hother
  replace hempty : ∀ k, k < 9 → t.zone n k = 0 := hempty
  have hsame : ∀ m q, m ≠ n → t.at m q = s.at m q := fun m q hm => at_other (hother m hm) hblock q
  have hat : ∀ m q, t.Has m q → t.at m q ≠ 0 → m ≠ n ∧ s.Has m q := by
    intro m q hq hne
    refine ⟨?_, (file_congr (hmode m)).symm.trans hq.1, hq.2⟩
    rintro rfl
    exact hne (at_zero hempty hq.2)
  refine ⟨t, ht, ⟨?_, ?_, fun m q hq hne => ?_, fun m q m' q' hq hq' hne heq => ?_, fun m q hq hne => ?_⟩, hmode,
    fun m x hm => ?_, fun x hx => ?_⟩
  · rw [hfirst]
    exact h.first
  · refine (hzmap 0).mpr ⟨h.zero, fun p hp hne heq => ?_⟩
    have hrange := (fair_mask ok h).range n p ⟨hn, hp⟩ hne
    have hfirst₀ := h.first
    unfold State.bit at heq
    omega
  · obtain ⟨hm, hhas⟩ := hat m q hq hne
    rw [hsame m q hm] at hne ⊢
    rw [hfirst, hnzones]
    exact h.range m q hhas hne
  · obtain ⟨hm, hhas⟩ := hat m q hq hne
    obtain ⟨hm', hhas'⟩ := hat m' q' hq' (heq ▸ hne)
    rw [hsame m q hm] at hne heq
    rw [hsame m' q' hm'] at heq
    exact h.once m q m' q' hhas hhas' hne heq
  · obtain ⟨hm, hhas⟩ := hat m q hq hne
    rw [hsame m q hm] at hne ⊢
    have hbit : t.bit (s.at m q) = s.bit (s.at m q) := by
      unfold State.bit
      rw [hfirst]
    rw [hbit]
    refine (hzmap _).mpr ⟨h.held m q hhas hne, fun p hp hne' heq => hm ?_⟩
    -- the bit of a zone of another inode
    have hsame' := mask_at_of_ne hne'
    rw [hsame'] at hne' heq
    have hz := bit_inj h.first (h.range m q hhas hne).1 (h.range n p ⟨hn, hp⟩ hne').1 heq
    exact (h.once n p m q ⟨hn, hp⟩ hhas hne' hz).1.symm
  · refine content_congr (hsame m _ hm) fun _ => ?_
    rw [hblock]
  · exact if_pos (at_zero hempty (dataPos_valid hx))

end Linux011.Fs.FileData
