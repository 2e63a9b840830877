import Mathlib.Data.Finset.Basic
import Mathlib.Logic.Function.Basic
import Mathlib.Logic.Relation

/-!
# Zone accounting

`_bmap`, `truncate` and the final `iput` of an inode, one call at a time, with `new_block` and
`free_block` on the zone bitmap. Blocks can be read, and nobody else has their buffers; the
bitmap may be full at any point. A block is what an index block is, 512 zone numbers.

* `State.at` — the zone at a place of the tree of an inode;
* `Good` — the bits of zones are set for those at some place, which is one place;
* `good_store`, `good_truncate` — a zone is added, the zones of an inode are freed;
* `zone_map` — runs; no call panics.
-/

namespace Linux011.Fs.ZoneMap

def sIfmt : Nat := 0o170000
def iRegular : Nat := 0o100000
def iDirectory : Nat := 0o040000

structure Inode where
  mode : Nat
  zone : Nat → Nat

/-- The bits of the maps, by their numbers; the inodes of the device, and its blocks. -/
structure State where
  firstdatazone : Nat
  nzones        : Nat
  bits          : Nat
  zmap          : Finset Nat
  inode         : Nat → Inode
  block         : Nat → Nat → Nat

/-- `S_ISREG` or `S_ISDIR`. -/
def State.file (s : State) (n : Nat) : Bool :=
  (s.inode n).mode &&& sIfmt == iRegular || (s.inode n).mode &&& sIfmt == iDirectory

def State.zone (s : State) (n k : Nat) : Nat := (s.inode n).zone k

def State.setZone (s : State) (n k z : Nat) : State :=
  { s with inode := Function.update s.inode n { s.inode n with zone := Function.update (s.inode n).zone k z } }

def State.setEntry (s : State) (w b z : Nat) : State :=
  { s with block := Function.update s.block w (Function.update (s.block w) b z) }

/-- The bit of a zone. -/
def State.bit (s : State) (z : Nat) : Nat := z - (s.firstdatazone - 1)

/-- `new_block`: the zone, or 0. The maps may have more bits than there are zones. -/
def State.newBlock (s : State) : State × Nat :=
  match (List.range s.bits).find? (· ∉ s.zmap) with
  | none => (s, 0)
  | some j =>
    let z := j + (s.firstdatazone - 1)
    if s.nzones ≤ z then ({ s with zmap := insert j s.zmap }, 0)
    else ({ s with zmap := insert j s.zmap, block := Function.update s.block z fun _ => 0 }, z)

/-- `free_block`. Nothing if it panics. -/
def State.freeBlock (s : State) (z : Nat) : Option State :=
  if z < s.firstdatazone ∨ s.nzones ≤ z then none
  else if s.bit z ∈ s.zmap then some { s with zmap := s.zmap.erase (s.bit z) }
  else none

/-- `if (create && !i_zone[k]) i_zone[k] = new_block()`, and the zone there. -/
def State.fillZone (s : State) (n k : Nat) (create : Bool) : State × Nat :=
  if create && s.zone n k == 0 then
    let (s, z) := s.newBlock
    (s.setZone n k z, z)
  else (s, s.zone n k)

/-- The same for entry `b` of the index block `w`. -/
def State.fillEntry (s : State) (w b : Nat) (create : Bool) : State × Nat :=
  if create && s.block w b == 0 then
    let (s, z) := s.newBlock
    if z = 0 then (s, 0) else (s.setEntry w b z, z)
  else (s, s.block w b)

/-- `_bmap`. Nothing if it panics. -/
def State.bmap (s : State) (n block : Nat) (create : Bool) : Option (State × Nat) :=
  if 7 + 512 + 512 * 512 ≤ block then none
  else if block < 7 then some (s.fillZone n block create)
  else if block - 7 < 512 then
    let (s, z) := s.fillZone n 7 create
    if z = 0 then some (s, 0) else some (s.fillEntry z (block - 7) create)
  else
    let m := block - 7 - 512
    let (s, z) := s.fillZone n 8 create
    if z = 0 then some (s, 0)
    else
      let (s, i) := s.fillEntry z (m >>> 9) create
      if i = 0 then some (s, 0) else some (s.fillEntry i (m &&& 511) create)

def State.createBlock (s : State) (n block : Nat) : Option (State × Nat) := s.bmap n block true

/-- The loops over the entries of an index block. -/
def State.each (free : State → Nat → Option State) (s : State) (zs : List Nat) : Option State :=
  zs.foldlM (fun s z => if z = 0 then some s else free s z) s

def State.entries (s : State) (w : Nat) : List Nat := (List.range 512).map (s.block w)

def State.freeInd (s : State) (w : Nat) : Option State :=
  if w = 0 then some s
  else do
    let s' ← s.each State.freeBlock (s.entries w)
    s'.freeBlock w

def State.freeDind (s : State) (w : Nat) : Option State :=
  if w = 0 then some s
  else do
    let s' ← s.each State.freeInd (s.entries w)
    s'.freeBlock w

/-- The loop over the direct zones. -/
def State.freeDirect (s : State) (n : Nat) (ks : List Nat) : Option State :=
  ks.foldlM (fun s k => if s.zone n k = 0 then some s else (s.freeBlock (s.zone n k)).map (·.setZone n k 0)) s

def State.truncate (s : State) (n : Nat) : Option State :=
  if s.file n then do
    let s ← s.freeDirect n (List.range 7)
    let s ← s.freeInd (s.zone n 7)
    let s ← s.freeDind (s.zone n 8)
    some ((s.setZone n 7 0).setZone n 8 0)
  else some s

/-- The last `iput` of an inode without links: `truncate`, `free_inode`. -/
def State.iput (s : State) (n : Nat) : Option State :=
  (s.truncate n).map fun s => { s with inode := Function.update s.inode n ⟨0, fun _ => 0⟩ }

/-! ## The tree -/

/-- A place for a zone number in the tree of an inode. -/
inductive Pos
  | zone (k : Nat)
  | entry (b : Nat)
  | mid (b : Nat)
  | leaf (b c : Nat)
  deriving DecidableEq

def Pos.Valid : Pos → Prop
  | .zone k => k < 9
  | .entry b => b < 512
  | .mid b => b < 512
  | .leaf b c => b < 512 ∧ c < 512

/-- The place that names the index block, and the entry of it. -/
def Pos.up : Pos → Option (Pos × Nat)
  | .zone _ => none
  | .entry b => some (.zone 7, b)
  | .mid b => some (.zone 8, b)
  | .leaf b c => some (.mid b, c)

def State.below (s : State) (w b : Nat) : Nat := if w = 0 then 0 else s.block w b

/-- The zone at a place, or 0. -/
def State.at (s : State) (n : Nat) : Pos → Nat
  | .zone k => s.zone n k
  | .entry b => s.below (s.zone n 7) b
  | .mid b => s.below (s.zone n 8) b
  | .leaf b c => s.below (s.below (s.zone n 8) b) c

/-- The place belongs to a file. -/
def State.Has (s : State) (n : Nat) (p : Pos) : Prop := s.file n = true ∧ p.Valid

/-- The bits of zones are set for those that are at a place, and they are at one. Bit 0 is
that of no zone; `read_super` sets it. -/
structure Good (s : State) : Prop where
  first : 1 ≤ s.firstdatazone
  zero  : 0 ∈ s.zmap
  range : ∀ n p, s.Has n p → s.at n p ≠ 0 → s.firstdatazone ≤ s.at n p ∧ s.at n p < s.nzones
  once  : ∀ n p m q, s.Has n p → s.Has m q → s.at n p ≠ 0 → s.at n p = s.at m q → n = m ∧ p = q
  exact : ∀ z, s.firstdatazone ≤ z → z < s.nzones → (s.bit z ∈ s.zmap ↔ ∃ n p, s.Has n p ∧ s.at n p = z)

/-- The same, where bits may also be set for zones that are at no place. -/
structure Fair (s : State) : Prop where
  first : 1 ≤ s.firstdatazone
  zero  : 0 ∈ s.zmap
  range : ∀ n p, s.Has n p → s.at n p ≠ 0 → s.firstdatazone ≤ s.at n p ∧ s.at n p < s.nzones
  once  : ∀ n p m q, s.Has n p → s.Has m q → s.at n p ≠ 0 → s.at n p = s.at m q → n = m ∧ p = q
  held  : ∀ n p, s.Has n p → s.at n p ≠ 0 → s.bit (s.at n p) ∈ s.zmap

theorem Good.fair {s : State} (h : Good s) : Fair s := by
  refine ⟨h.first, h.zero, h.range, h.once, fun n p hp hne => ?_⟩
  obtain ⟨hlo, hhi⟩ := h.range n p hp hne
  exact (h.exact _ hlo hhi).mpr ⟨n, p, hp, rfl⟩

variable {s s' : State} {n z w b : Nat} {p : Pos}

theorem at_up {q : Pos} (h : p.up = some (q, b)) : s.at n p = s.below (s.at n q) b := by
  cases p with
  | zone k => cases h
  | entry b' =>
    cases h
    rfl
  | mid b' =>
    cases h
    rfl
  | leaf b' c =>
    cases h
    rfl

theorem valid_up {q : Pos} (h : p.up = some (q, b)) (hp : p.Valid) : q.Valid ∧ b < 512 := by
  cases p with
  | zone k => cases h
  | entry b' =>
    cases h
    exact ⟨(by omega : 7 < 9), hp⟩
  | mid b' =>
    cases h
    exact ⟨(by omega : 8 < 9), hp⟩
  | leaf b' c =>
    cases h
    exact hp

theorem up_inj {q r : Pos} (hp : p.up = some (r, b)) (hq : q.up = some (r, b)) : p = q := by
  cases p <;> cases hp <;> cases q <;> cases hq <;> rfl

theorem bit_inj (h : 1 ≤ s.firstdatazone) {z z' : Nat} (hz : s.firstdatazone ≤ z) (hz' : s.firstdatazone ≤ z')
    (heq : s.bit z' = s.bit z) : z' = z := by
  unfold State.bit at heq
  omega

/-- The index block that has the place, and the entry of it. -/
def State.slot (s : State) (n : Nat) (p : Pos) : Option (Nat × Nat) := p.up.map fun x => (s.at n x.1, x.2)

theorem slot_iff {c : Nat} : s.slot n p = some (w, c) ↔ ∃ q, p.up = some (q, c) ∧ s.at n q = w := by
  unfold State.slot
  rw [Option.map_eq_some_iff]
  constructor
  · rintro ⟨⟨q, b⟩, hq, heq⟩
    cases heq
    exact ⟨q, hq, rfl⟩
  · rintro ⟨q, hq, rfl⟩
    exact ⟨(q, c), hq, rfl⟩

/-- A zone that is free, and its block. -/
structure Free (s : State) (z : Nat) : Prop where
  range : s.firstdatazone ≤ z ∧ z < s.nzones
  clear : s.bit z ∉ s.zmap

/-- The bit of the zone is set, and the block cleared. -/
def State.take (s : State) (z : Nat) : State :=
  { s with zmap := insert (s.bit z) s.zmap, block := Function.update s.block z fun _ => 0 }

/-- The number is put at the place. -/
def State.store (s : State) (n : Nat) (p : Pos) (z : Nat) : State :=
  match p with
  | .zone k => s.setZone n k z
  | .entry b => s.setEntry (s.at n (.zone 7)) b z
  | .mid b => s.setEntry (s.at n (.zone 8)) b z
  | .leaf b c => s.setEntry (s.at n (.mid b)) c z

theorem Good.unowned (h : Good s) (hz : Free s z) {m : Nat} {q : Pos} (hq : s.Has m q) : s.at m q ≠ z := by
  intro heq
  exact hz.clear ((h.exact z hz.range.1 hz.range.2).mpr ⟨m, q, hq, heq⟩)

/-- What `new_block` can do: no bit is clear; the bit belongs to no zone; a zone is taken. -/
theorem newBlock_cases (hfirst : 1 ≤ s.firstdatazone) (hzero : 0 ∈ s.zmap) :
    s.newBlock = (s, 0) ∨
      (∃ j, (∀ y, s.firstdatazone ≤ y → y < s.nzones → s.bit y ≠ j) ∧
        s.newBlock = ({ s with zmap := insert j s.zmap }, 0)) ∨
      ∃ z, z ≠ 0 ∧ Free s z ∧ s.newBlock = (s.take z, z) := by
  unfold State.newBlock
  cases hfind : (List.range s.bits).find? (· ∉ s.zmap) with
  | none => exact Or.inl rfl
  | some j =>
    have hclear : j ∉ s.zmap := by simpa using List.find?_some hfind
    have hj : j ≠ 0 := fun heq => hclear (heq ▸ hzero)
    dsimp only
    by_cases hlast : s.nzones ≤ j + (s.firstdatazone - 1)
    · rw [if_pos hlast]
      refine Or.inr (Or.inl ⟨j, fun y hy hy' heq => ?_, rfl⟩)
      have heq' : y - (s.firstdatazone - 1) = j := heq
      omega
    · rw [if_neg hlast]
      have hbit : s.bit (j + (s.firstdatazone - 1)) = j := Nat.add_sub_cancel ..
      refine Or.inr (Or.inr ⟨j + (s.firstdatazone - 1), by omega, ⟨⟨by omega, by omega⟩, ?_⟩, ?_⟩)
      · rw [hbit]
        exact hclear
      · unfold State.take
        rw [hbit]

theorem newBlock_spec (h : Good s) :
    (∃ t, s.newBlock = (t, 0) ∧ Good t ∧ t.inode = s.inode ∧ t.block = s.block) ∨
      ∃ z, z ≠ 0 ∧ Free s z ∧ s.newBlock = (s.take z, z) := by
  rcases newBlock_cases h.first h.zero with heq | ⟨j, hnone, heq⟩ | htaken
  · exact Or.inl ⟨s, heq, h, rfl, rfl⟩
  · refine Or.inl ⟨_, heq, ⟨h.first, Finset.mem_insert_of_mem h.zero, h.range, h.once, fun z hz hz' => ?_⟩, rfl, rfl⟩
    refine Iff.trans ⟨fun hmem => ?_, Finset.mem_insert_of_mem⟩ (h.exact z hz hz')
    exact (Finset.mem_insert.mp hmem).resolve_left (hnone z hz hz')
  · exact Or.inr htaken

theorem store_zone (s : State) (n : Nat) (p : Pos) (z m k : Nat) :
    (s.store n p z).zone m k = if m = n ∧ .zone k = p then z else s.zone m k := by
  cases p with
  | zone j =>
    unfold State.store State.setZone State.zone
    by_cases hm : m = n
    · subst hm
      dsimp only
      rw [Function.update_self]
      by_cases hk : k = j
      · rw [if_pos ⟨rfl, by rw [hk]⟩, hk]
        exact Function.update_self ..
      · rw [if_neg fun hand => hk (Pos.zone.inj hand.2)]
        exact Function.update_of_ne hk ..
    · rw [if_neg fun hand => hm hand.1]
      dsimp only
      rw [Function.update_of_ne hm]
  | entry b =>
    rw [if_neg fun hand => by cases hand.2]
    rfl
  | mid b =>
    rw [if_neg fun hand => by cases hand.2]
    rfl
  | leaf b c =>
    rw [if_neg fun hand => by cases hand.2]
    rfl

theorem store_block (s : State) (n : Nat) (p : Pos) (z w c : Nat) :
    (s.store n p z).block w c = if s.slot n p = some (w, c) then z else s.block w c := by
  have hentry : ∀ v b, (s.setEntry v b z).block w c = if some (v, b) = some (w, c) then z else s.block w c := by
    intro v b
    unfold State.setEntry
    dsimp only
    by_cases hw : w = v
    · subst hw
      rw [Function.update_self]
      by_cases hc : b = c
      · rw [if_pos (by rw [hc]), hc]
        exact Function.update_self ..
      · rw [if_neg fun heq => hc (by cases heq; rfl)]
        exact Function.update_of_ne (Ne.symm hc) ..
    · rw [if_neg fun heq => hw (by cases heq; rfl), Function.update_of_ne hw]
  cases p with
  | zone k => exact (if_neg fun heq => by cases heq).symm
  | entry b => exact hentry _ _
  | mid b => exact hentry _ _
  | leaf b d => exact hentry _ _

theorem store_eq {q : Pos} (h : p.up = some (q, b)) : s.store n p z = s.setEntry (s.at n q) b z := by
  cases p <;> cases h <;> rfl

/-- A block that is cleared is no index block. -/
theorem take_at (h : Good s) (hz : Free s z) {m : Nat} {q : Pos} (hq : s.Has m q) : (s.take z).at m q = s.at m q := by
  have hbelow : ∀ r c, s.Has m r → (s.take z).below (s.at m r) c = s.below (s.at m r) c := by
    intro r c hr
    unfold State.below State.take
    dsimp only
    rw [Function.update_of_ne (h.unowned hz hr)]
  obtain ⟨hfile, hvalid⟩ := hq
  cases q with
  | zone k => rfl
  | entry b => exact hbelow (.zone 7) b ⟨hfile, (by omega : 7 < 9)⟩
  | mid b => exact hbelow (.zone 8) b ⟨hfile, (by omega : 8 < 9)⟩
  | leaf b c =>
    have hmid := hbelow (.zone 8) b ⟨hfile, (by omega : 8 < 9)⟩
    refine (congrArg (fun w => (s.take z).below w c) hmid).trans ?_
    exact hbelow (.mid b) c ⟨hfile, hvalid.1⟩

/-- What is at the places after a zone is taken and put at one of them. -/
theorem at_store (h : Good s) (hp : s.Has n p) (hup : ∀ q b, p.up = some (q, b) → s.at n q ≠ 0) (h₀ : s.at n p = 0)
    (hz : Free s z) {m : Nat} {q : Pos} (hq : s.Has m q) :
    ((s.take z).store n p z).at m q = if m = n ∧ q = p then z else s.at m q := by
  have hz₀ : z ≠ 0 := by
    have hfirst := h.first
    have hrange := hz.range
    omega
  have hslot : (s.take z).slot n p = s.slot n p := by
    unfold State.slot
    cases hr : p.up with
    | none => rfl
    | some x => exact congrArg (fun w => some (w, x.2)) (take_at h hz ⟨hp.1, (valid_up hr hp.2).1⟩)
  generalize ht : (s.take z).store n p z = t
  have hblock : ∀ w c, t.block w c =
      if s.slot n p = some (w, c) then z else if w = z then 0 else s.block w c := by
    intro w c
    rw [← ht, store_block, hslot]
    refine if_congr Iff.rfl rfl ?_
    unfold State.take
    dsimp only
    by_cases hw : w = z
    · rw [if_pos hw, hw, Function.update_self]
    · rw [if_neg hw, Function.update_of_ne hw]
  -- the new block is empty
  have hempty : ∀ c, t.below z c = 0 := by
    intro c
    unfold State.below
    rw [if_neg hz₀, hblock, if_neg, if_pos rfl]
    intro heq
    obtain ⟨r, hr, hw⟩ := slot_iff.mp heq
    exact h.unowned hz ⟨hp.1, (valid_up hr hp.2).1⟩ hw
  have hbelow : ∀ m r c, s.Has m r →
      t.below (s.at m r) c = if m = n ∧ p.up = some (r, c) then z else s.below (s.at m r) c := by
    intro m r c hr
    unfold State.below
    by_cases hw : s.at m r = 0
    · rw [if_pos hw, if_pos hw, if_neg]
      rintro ⟨rfl, hrup⟩
      exact hup r c hrup hw
    · rw [if_neg hw, if_neg hw, hblock, if_neg (h.unowned hz hr)]
      refine if_congr ⟨?_, ?_⟩ rfl rfl
      · intro hs
        obtain ⟨r', hr', heq⟩ := slot_iff.mp hs
        obtain ⟨rfl, rfl⟩ := h.once m r n r' hr ⟨hp.1, (valid_up hr' hp.2).1⟩ hw heq.symm
        exact ⟨rfl, hr'⟩
      · rintro ⟨rfl, hrup⟩
        exact slot_iff.mpr ⟨r, hrup, rfl⟩
  have hzone : ∀ k, t.at m (.zone k) = if m = n ∧ .zone k = p then z else s.at m (.zone k) := by
    intro k
    rw [← ht]
    exact store_zone (s.take z) n p z m k
  -- one place down
  have hdown : ∀ q r c, q.up = some (r, c) → s.Has m r → t.at m r = (if m = n ∧ r = p then z else s.at m r) →
      t.at m q = if m = n ∧ q = p then z else s.at m q := by
    intro q r c hqr hr hat
    rw [at_up hqr, at_up (s := s) hqr, hat]
    by_cases hrp : m = n ∧ r = p
    · obtain ⟨rfl, rfl⟩ := hrp
      rw [if_pos ⟨rfl, rfl⟩, hempty, h₀, if_neg]
      · rfl
      · rintro ⟨-, rfl⟩
        cases q <;> cases hqr
    · rw [if_neg hrp, hbelow m r c hr]
      refine if_congr ⟨?_, ?_⟩ rfl rfl
      · rintro ⟨hm, hpr⟩
        exact ⟨hm, up_inj hqr hpr⟩
      · rintro ⟨hm, rfl⟩
        exact ⟨hm, hqr⟩
  obtain ⟨hfile, hvalid⟩ := hq
  have hhas : ∀ k, k < 9 → s.Has m (.zone k) := fun k hk => ⟨hfile, hk⟩
  cases q with
  | zone k => exact hzone k
  | entry b => exact hdown _ (.zone 7) b rfl (hhas 7 (by omega)) (hzone 7)
  | mid b => exact hdown _ (.zone 8) b rfl (hhas 8 (by omega)) (hzone 8)
  | leaf b c =>
    refine hdown _ (.mid b) c rfl ⟨hfile, hvalid.1⟩ ?_
    exact hdown _ (.zone 8) b rfl (hhas 8 (by omega)) (hzone 8)

@[simp] theorem setZone_file (s : State) (n k z m : Nat) : (s.setZone n k z).file m = s.file m := by
  unfold State.setZone State.file
  dsimp only
  by_cases hm : m = n
  · rw [hm, Function.update_self]
  · rw [Function.update_of_ne hm]

theorem store_frame (s : State) (n : Nat) (p : Pos) (z : Nat) :
    (s.store n p z).zmap = s.zmap ∧ (s.store n p z).firstdatazone = s.firstdatazone ∧
      (s.store n p z).nzones = s.nzones ∧ ∀ m, (s.store n p z).file m = s.file m := by
  cases p with
  | zone k => exact ⟨rfl, rfl, rfl, setZone_file s n k z⟩
  | entry b => exact ⟨rfl, rfl, rfl, fun _ => rfl⟩
  | mid b => exact ⟨rfl, rfl, rfl, fun _ => rfl⟩
  | leaf b c => exact ⟨rfl, rfl, rfl, fun _ => rfl⟩

theorem good_store (h : Good s) (hp : s.Has n p) (hup : ∀ q b, p.up = some (q, b) → s.at n q ≠ 0) (h₀ : s.at n p = 0)
    (hz : Free s z) : Good ((s.take z).store n p z) ∧ ((s.take z).store n p z).at n p = z ∧
      ∀ m, ((s.take z).store n p z).file m = s.file m := by
  obtain ⟨hzmap, hfirst, hnzones, hfile⟩ := store_frame (s.take z) n p z
  have hat : ∀ m q, s.Has m q → ((s.take z).store n p z).at m q = if m = n ∧ q = p then z else s.at m q :=
    fun m q hq => at_store h hp hup h₀ hz hq
  generalize (s.take z).store n p z = t at *
  replace hfile : ∀ m, t.file m = s.file m := hfile
  replace hzmap : t.zmap = insert (s.bit z) s.zmap := hzmap
  replace hfirst : t.firstdatazone = s.firstdatazone := hfirst
  replace hnzones : t.nzones = s.nzones := hnzones
  have hhas : ∀ m q, t.Has m q ↔ s.Has m q := fun m q => by
    unfold State.Has
    rw [hfile]
  have hbit : ∀ y, t.bit y = s.bit y := fun y => by
    unfold State.bit
    rw [hfirst]
  have hself : t.at n p = z := (hat n p hp).trans (if_pos ⟨rfl, rfl⟩)
  have hz₀ : z ≠ 0 := by
    have hpos := h.first
    have hrange := hz.range
    omega
  refine ⟨⟨?_, ?_, fun m q hq hne => ?_, fun m q m' q' hq hq' hne heq => ?_, fun y hy hy' => ?_⟩, hself, hfile⟩
  · rw [hfirst]
    exact h.first
  · rw [hzmap]
    exact Finset.mem_insert_of_mem h.zero
  · rw [hhas] at hq
    rw [hat m q hq] at hne ⊢
    rw [hfirst, hnzones]
    split_ifs at hne ⊢
    · exact hz.range
    · exact h.range m q hq hne
  · rw [hhas] at hq hq'
    rw [hat m q hq] at hne heq
    rw [hat m' q' hq'] at heq
    split_ifs at hne heq with hand hand' hand'
    · exact ⟨hand.1.trans hand'.1.symm, hand.2.trans hand'.2.symm⟩
    · exact absurd heq.symm (h.unowned hz hq')
    · exact absurd heq (h.unowned hz hq)
    · exact h.once m q m' q' hq hq' hne heq
  · rw [hfirst] at hy
    rw [hnzones] at hy'
    rw [hbit, hzmap, Finset.mem_insert, h.exact y hy hy']
    constructor
    · rintro (heq | ⟨m, q, hq, hmq⟩)
      · refine ⟨n, p, (hhas n p).mpr hp, ?_⟩
        rw [hself]
        exact (bit_inj h.first hz.range.1 hy heq).symm
      · refine ⟨m, q, (hhas m q).mpr hq, ?_⟩
        rw [hat m q hq, if_neg]
        · exact hmq
        · rintro ⟨rfl, rfl⟩
          have hpos := h.first
          omega
    · rintro ⟨m, q, hq, hmq⟩
      rw [hhas] at hq
      rw [hat m q hq] at hmq
      split_ifs at hmq
      · exact Or.inl (by rw [hmq])
      · exact Or.inr ⟨m, q, hq, hmq⟩

theorem setZone_self {k : Nat} (h : s.zone n k = z) : s.setZone n k z = s := by
  subst h
  unfold State.setZone State.zone
  rw [Function.update_eq_self]
  show { s with inode := Function.update s.inode n (s.inode n) } = s
  rw [Function.update_eq_self]

/-- What is left after a place was looked at, and perhaps filled. -/
structure Filled (s t : State) (n : Nat) (p : Pos) (y : Nat) : Prop where
  good : Good t
  zone : y ≠ 0 → t.at n p = y
  file : ∀ m, t.file m = s.file m

theorem at_congr {t : State} (hat : t.inode = s.inode ∧ t.block = s.block) :
    (∀ m q, t.at m q = s.at m q) ∧ ∀ m, t.file m = s.file m := by
  obtain ⟨hinode, hblock⟩ := hat
  refine ⟨fun m q => ?_, fun m => ?_⟩
  · cases q <;> (unfold State.at; unfold State.below State.zone; rw [hinode, hblock])
  · unfold State.file
    rw [hinode]

theorem fillZone_spec (h : Good s) {k : Nat} (hp : s.Has n (.zone k)) (create : Bool) :
    ∃ t y, s.fillZone n k create = (t, y) ∧ Filled s t n (.zone k) y := by
  unfold State.fillZone
  split_ifs with hfill
  · rw [Bool.and_eq_true, beq_iff_eq] at hfill
    rcases newBlock_spec h with ⟨t, hnew, hgood, hinode, hblock⟩ | ⟨z, -, hz, hnew⟩
    · rw [hnew]
      have hzone : t.zone n k = 0 := by
        unfold State.zone
        rw [hinode]
        exact hfill.2
      dsimp only
      rw [setZone_self hzone]
      exact ⟨t, 0, rfl, hgood, fun hne => absurd rfl hne, (at_congr ⟨hinode, hblock⟩).2⟩
    · rw [hnew]
      obtain ⟨hgood, hat, hfile⟩ := good_store h hp (fun _ _ hr => by cases hr) hfill.2 hz
      exact ⟨_, z, rfl, hgood, fun _ => hat, hfile⟩
  · exact ⟨s, _, rfl, h, fun _ => rfl, fun _ => rfl⟩

theorem fillEntry_spec (h : Good s) {q : Pos} (hp : s.Has n p) (hup : p.up = some (q, b)) (hq : s.at n q ≠ 0)
    (create : Bool) : ∃ t y, s.fillEntry (s.at n q) b create = (t, y) ∧ Filled s t n p y := by
  have hzone : s.at n p = s.block (s.at n q) b := by
    rw [at_up hup]
    exact if_neg hq
  have hhas : s.Has n q := ⟨hp.1, (valid_up hup hp.2).1⟩
  unfold State.fillEntry
  split_ifs with hfill
  · rw [Bool.and_eq_true, beq_iff_eq] at hfill
    rcases newBlock_spec h with ⟨t, hnew, hgood, hsame⟩ | ⟨z, hz₀, hz, hnew⟩
    · rw [hnew]
      exact ⟨t, 0, rfl, hgood, fun hne => absurd rfl hne, (at_congr hsame).2⟩
    · rw [hnew]
      dsimp only
      rw [if_neg hz₀]
      have hup' : ∀ r c, p.up = some (r, c) → s.at n r ≠ 0 := by
        intro r c hr
        cases hup.symm.trans hr
        exact hq
      obtain ⟨hgood, hat, hfile⟩ := good_store h hp hup' (hzone.trans hfill.2) hz
      rw [store_eq hup, take_at h hz hhas] at hgood hat hfile
      exact ⟨_, z, rfl, hgood, fun _ => hat, hfile⟩
  · exact ⟨s, _, rfl, h, fun _ => hzone, fun _ => rfl⟩

/-- `_bmap` on a file, whether it creates or not. -/
theorem bmap_spec (h : Good s) (hn : s.file n = true) {block : Nat} (hb : block < 7 + 512 + 512 * 512) (create : Bool) :
    ∃ t y, s.bmap n block create = some (t, y) ∧ Good t ∧ ∀ m, t.file m = s.file m := by
  unfold State.bmap
  rw [if_neg (by omega)]
  by_cases hdirect : block < 7
  · rw [if_pos hdirect]
    obtain ⟨t, y, heq, hf⟩ := fillZone_spec (k := block) h ⟨hn, (by omega : block < 9)⟩ create
    exact ⟨t, y, by rw [heq], hf.good, hf.file⟩
  rw [if_neg hdirect]
  by_cases hind : block - 7 < 512
  · rw [if_pos hind]
    obtain ⟨t, z, heq, hf⟩ := fillZone_spec (k := 7) h ⟨hn, (by omega : 7 < 9)⟩ create
    rw [heq]
    dsimp only
    by_cases hz : z = 0
    · rw [if_pos hz]
      exact ⟨t, 0, rfl, hf.good, hf.file⟩
    · rw [if_neg hz]
      have hn₁ : t.file n = true := (hf.file n).trans hn
      have hat := hf.zone hz
      obtain ⟨t', y, heq', hf'⟩ := fillEntry_spec (p := .entry (block - 7)) hf.good ⟨hn₁, hind⟩ rfl
        (hat.trans_ne hz) create
      rw [hat] at heq'
      exact ⟨t', y, by rw [heq'], hf'.good, fun m => (hf'.file m).trans (hf.file m)⟩
  · rw [if_neg hind]
    dsimp only
    obtain ⟨t, z, heq, hf⟩ := fillZone_spec (k := 8) h ⟨hn, (by omega : 8 < 9)⟩ create
    rw [heq]
    dsimp only
    by_cases hz : z = 0
    · rw [if_pos hz]
      exact ⟨t, 0, rfl, hf.good, hf.file⟩
    · rw [if_neg hz]
      have hn₁ : t.file n = true := (hf.file n).trans hn
      have hat := hf.zone hz
      have hb₁ : (block - 7 - 512) >>> 9 < 512 := by
        rw [Nat.shiftRight_eq_div_pow]
        omega
      have hb₂ : (block - 7 - 512) &&& 511 < 512 := Nat.lt_succ_of_le Nat.and_le_right
      obtain ⟨t₁, i, heq₁, hf₁⟩ := fillEntry_spec (p := .mid ((block - 7 - 512) >>> 9)) hf.good ⟨hn₁, hb₁⟩ rfl
        (hat.trans_ne hz) create
      rw [hat] at heq₁
      rw [heq₁]
      dsimp only
      by_cases hi : i = 0
      · rw [if_pos hi]
        exact ⟨t₁, 0, rfl, hf₁.good, fun m => (hf₁.file m).trans (hf.file m)⟩
      · rw [if_neg hi]
        have hn₂ : t₁.file n = true := (hf₁.file n).trans hn₁
        have hat₁ := hf₁.zone hi
        obtain ⟨t₂, y, heq₂, hf₂⟩ :=
          fillEntry_spec (p := .leaf ((block - 7 - 512) >>> 9) ((block - 7 - 512) &&& 511)) hf₁.good
            ⟨hn₂, hb₁, hb₂⟩ rfl (hat₁.trans_ne hi) create
        rw [hat₁] at heq₂
        exact ⟨t₂, y, by rw [heq₂], hf₂.good, fun m => ((hf₂.file m).trans (hf₁.file m)).trans (hf.file m)⟩

/-! ## Freeing -/

def State.put (s : State) (n : Nat) (x : Inode) : State := { s with inode := Function.update s.inode n x }

theorem put_put (s : State) (n : Nat) (x y : Inode) : (s.put n x).put n y = s.put n y := by
  unfold State.put
  dsimp only
  rw [Function.update_idem]

theorem each_cons (f : State → Nat → Option State) (s : State) (z : Nat) (zs : List Nat) :
    s.each f (z :: zs) = (if z = 0 then some s else f s z).bind fun t => t.each f zs := rfl

theorem each_append (f : State → Nat → Option State) (s : State) (xs ys : List Nat) :
    s.each f (xs ++ ys) = (s.each f xs).bind fun t => t.each f ys := List.foldlM_append

theorem each_zeros (f : State → Nat → Option State) (s : State) {zs : List Nat} (h : ∀ z, z ∈ zs → z = 0) :
    s.each f zs = some s := by
  induction zs with
  | nil => rfl
  | cons z zs ih =>
    rw [each_cons, if_pos (h z (List.mem_cons_self ..))]
    exact ih fun y hy => h y (List.mem_cons_of_mem _ hy)

theorem freeBlock_some {t : State} (h : s.freeBlock z = some t) :
    t = { s with zmap := s.zmap.erase (s.bit z) } := by
  unfold State.freeBlock at h
  split_ifs at h
  cases h
  rfl

theorem freeBlock_put (s : State) (n : Nat) (x : Inode) (z : Nat) :
    (s.put n x).freeBlock z = (s.freeBlock z).map (·.put n x) := by
  unfold State.freeBlock State.put State.bit
  dsimp only
  split_ifs <;> rfl

theorem each_put (s : State) (n : Nat) (x : Inode) (zs : List Nat) :
    (s.put n x).each State.freeBlock zs = (s.each State.freeBlock zs).map (·.put n x) := by
  induction zs generalizing s with
  | nil => rfl
  | cons z zs ih =>
    rw [each_cons, each_cons]
    by_cases hz : z = 0
    · rw [if_pos hz, if_pos hz]
      exact ih s
    · rw [if_neg hz, if_neg hz, freeBlock_put]
      cases s.freeBlock z with
      | none => rfl
      | some t => exact ih t

/-- Freeing changes the bitmap only. -/
theorem each_frame {t : State} {zs : List Nat} (h : s.each State.freeBlock zs = some t) :
    t = { s with zmap := t.zmap } := by
  induction zs generalizing s with
  | nil =>
    cases h
    rfl
  | cons z zs ih =>
    rw [each_cons] at h
    by_cases hz : z = 0
    · rw [if_pos hz] at h
      exact ih h
    · rw [if_neg hz] at h
      cases hfree : s.freeBlock z with
      | none =>
        rw [hfree] at h
        cases h
      | some t₁ =>
        rw [hfree] at h
        have ht := ih h
        rw [freeBlock_some hfree] at ht
        exact ht

/-- A zone whose bit is set. -/
structure Used (s : State) (z : Nat) : Prop where
  range : s.firstdatazone ≤ z ∧ z < s.nzones
  mem   : s.bit z ∈ s.zmap

/-- Zones that are used, each once, are freed without a panic. -/
theorem each_spec (hfirst : 1 ≤ s.firstdatazone) {zs : List Nat} (hused : ∀ z, z ∈ zs → z ≠ 0 → Used s z)
    (hnodup : (zs.filter (· ≠ 0)).Nodup) : ∃ t, s.each State.freeBlock zs = some t ∧
      ∀ j, j ∈ t.zmap ↔ j ∈ s.zmap ∧ ∀ z, z ∈ zs → z ≠ 0 → s.bit z ≠ j := by
  induction zs generalizing s with
  | nil => exact ⟨s, rfl, fun j => ⟨fun hj => ⟨hj, fun _ hz => by cases hz⟩, fun hj => hj.1⟩⟩
  | cons z zs ih =>
    rw [each_cons]
    by_cases hz : z = 0
    · rw [List.filter_cons_of_neg (by simpa using hz)] at hnodup
      obtain ⟨t, heq, hmem⟩ := ih hfirst (fun y hy => hused y (List.mem_cons_of_mem _ hy)) hnodup
      rw [if_pos hz]
      refine ⟨t, heq, fun j => (hmem j).trans (and_congr_right fun _ => ?_)⟩
      refine ⟨fun h y hy hne => ?_, fun h y hy => h y (List.mem_cons_of_mem _ hy)⟩
      rcases List.mem_cons.mp hy with rfl | hy
      · exact absurd hz hne
      · exact h y hy hne
    · rw [List.filter_cons_of_pos (by simpa using hz), List.nodup_cons] at hnodup
      obtain ⟨hrange, hbit⟩ := hused z (List.mem_cons_self ..) hz
      have hfree : s.freeBlock z = some { s with zmap := s.zmap.erase (s.bit z) } := by
        unfold State.freeBlock
        rw [if_neg (by omega), if_pos hbit]
      have hrest : ∀ y, y ∈ zs → y ≠ 0 → Used { s with zmap := s.zmap.erase (s.bit z) } y := by
        intro y hy hne
        obtain ⟨hrange', hbit'⟩ := hused y (List.mem_cons_of_mem _ hy) hne
        refine ⟨hrange', Finset.mem_erase.mpr ⟨fun heq => hnodup.1 ?_, hbit'⟩⟩
        have hyz : y = z := bit_inj hfirst hrange.1 hrange'.1 heq
        exact List.mem_filter.mpr ⟨hyz ▸ hy, by simpa using hz⟩
      obtain ⟨t, heq, hmem⟩ := ih (s := { s with zmap := s.zmap.erase (s.bit z) }) hfirst hrest hnodup.2
      rw [if_neg hz, hfree]
      refine ⟨t, heq, fun j => (hmem j).trans ?_⟩
      rw [Finset.mem_erase]
      constructor
      · rintro ⟨⟨hjz, hj⟩, hothers⟩
        refine ⟨hj, fun y hy hne => ?_⟩
        rcases List.mem_cons.mp hy with rfl | hy
        · exact Ne.symm hjz
        · exact hothers y hy hne
      · rintro ⟨hj, hall⟩
        exact ⟨⟨Ne.symm (hall z (List.mem_cons_self ..) hz), hj⟩, fun y hy => hall y (List.mem_cons_of_mem _ hy)⟩

/-- The zones that `free_ind` frees. -/
def State.indZones (s : State) (w : Nat) : List Nat := (List.range 512).map (s.below w) ++ [w]

/-- The zones that `free_dind` frees. -/
def State.dindZones (s : State) (w : Nat) : List Nat :=
  (List.range 512).flatMap (fun b => s.indZones (s.below w b)) ++ [w]

theorem indZones_zero (s : State) : ∀ z, z ∈ s.indZones 0 → z = 0 := by
  intro z hz
  unfold State.indZones at hz
  rcases List.mem_append.mp hz with hz | hz
  · obtain ⟨b, -, rfl⟩ := List.mem_map.mp hz
    exact if_pos rfl
  · exact List.mem_singleton.mp hz

theorem freeInd_eq (s : State) (w : Nat) : s.freeInd w = s.each State.freeBlock (s.indZones w) := by
  unfold State.freeInd
  by_cases hw : w = 0
  · rw [if_pos hw, hw]
    exact (each_zeros _ s (indZones_zero s)).symm
  · rw [if_neg hw]
    have hentries : (List.range 512).map (s.below w) = s.entries w :=
      List.map_congr_left fun b _ => if_neg hw
    unfold State.indZones
    rw [each_append, hentries]
    refine congrArg (Option.bind _) (funext fun t => ?_)
    rw [each_cons, if_neg hw]
    cases t.freeBlock w <;> rfl

theorem indZones_congr {t : State} (h : t.block = s.block) (w : Nat) : t.indZones w = s.indZones w := by
  unfold State.indZones State.below
  rw [h]

theorem each_freeInd (s : State) (ws : List Nat) :
    s.each State.freeInd ws = s.each State.freeBlock (ws.flatMap s.indZones) := by
  induction ws generalizing s with
  | nil => rfl
  | cons w ws ih =>
    rw [List.flatMap_cons, each_append, each_cons]
    have hhead : (if w = 0 then some s else s.freeInd w) = s.each State.freeBlock (s.indZones w) := by
      by_cases hw : w = 0
      · rw [if_pos hw, hw]
        exact (each_zeros _ s (indZones_zero s)).symm
      · rw [if_neg hw]
        exact freeInd_eq s w
    rw [hhead]
    cases heach : s.each State.freeBlock (s.indZones w) with
    | none => rfl
    | some t =>
      have hblock : t.block = s.block := by
        rw [each_frame heach]
      have hsame : ws.flatMap t.indZones = ws.flatMap s.indZones := by
        rw [funext (indZones_congr hblock)]
      exact (ih t).trans (congrArg (t.each State.freeBlock) hsame)

theorem freeDind_eq (s : State) (w : Nat) : s.freeDind w = s.each State.freeBlock (s.dindZones w) := by
  unfold State.freeDind State.dindZones
  by_cases hw : w = 0
  · rw [if_pos hw]
    refine (each_zeros _ s fun z hz => ?_).symm
    rcases List.mem_append.mp hz with hz | hz
    · obtain ⟨b, -, hz⟩ := List.mem_flatMap.mp hz
      rw [hw] at hz
      exact indZones_zero s z hz
    · exact (List.mem_singleton.mp hz).trans hw
  · rw [if_neg hw, each_append]
    have hentries : (s.entries w).flatMap s.indZones =
        (List.range 512).flatMap fun b => s.indZones (s.below w b) := by
      unfold State.entries State.below
      simp only [List.flatMap_map, if_neg hw]
    rw [← hentries, ← each_freeInd]
    refine congrArg (Option.bind _) (funext fun t => ?_)
    rw [each_cons, if_neg hw]
    cases t.freeBlock w <;> rfl

/-- The inode without the zones `ks`. -/
def Inode.cut (x : Inode) (ks : List Nat) : Inode := { x with zone := fun k => if k ∈ ks then 0 else x.zone k }

theorem freeDirect_eq (s : State) (n : Nat) {ks : List Nat} (hks : ks.Nodup) :
    s.freeDirect n ks = (s.each State.freeBlock (ks.map (s.zone n))).map (·.put n ((s.inode n).cut ks)) := by
  induction ks generalizing s with
  | nil =>
    have hcut : (s.inode n).cut [] = s.inode n := by
      unfold Inode.cut
      simp only [List.not_mem_nil, if_false]
    show some s = some (s.put n ((s.inode n).cut []))
    unfold State.put
    rw [hcut, Function.update_eq_self]
  | cons k ks ih =>
    obtain ⟨hk, hks⟩ := List.nodup_cons.mp hks
    have hunfold : s.freeDirect n (k :: ks) = (if s.zone n k = 0 then some s else
        (s.freeBlock (s.zone n k)).map (·.setZone n k 0)).bind fun t => t.freeDirect n ks := rfl
    rw [hunfold, List.map_cons, each_cons]
    by_cases hz : s.zone n k = 0
    · have hcut : (s.inode n).cut (k :: ks) = (s.inode n).cut ks := by
        unfold Inode.cut
        congr 1
        funext j
        by_cases hj : j = k
        · rw [hj, if_pos (List.mem_cons_self ..), if_neg hk]
          exact hz.symm
        · simp only [List.mem_cons, hj, false_or]
      rw [if_pos hz, if_pos hz, hcut]
      exact ih s hks
    · rw [if_neg hz, if_neg hz]
      cases hfree : s.freeBlock (s.zone n k) with
      | none => rfl
      | some t =>
        have hinode : t.inode = s.inode := by rw [freeBlock_some hfree]
        have hset : t.setZone n k 0 = t.put n ((s.inode n).cut [k]) := by
          have hzone : Function.update (s.inode n).zone k 0 = fun j => if j ∈ [k] then 0 else (s.inode n).zone j := by
            funext j
            rw [Function.update_apply]
            simp only [List.mem_singleton]
          unfold State.setZone State.put Inode.cut
          rw [hinode, hzone]
        have hcut : (((t.setZone n k 0).inode n).cut ks) = (s.inode n).cut (k :: ks) := by
          rw [hset]
          unfold State.put Inode.cut
          dsimp only
          rw [Function.update_self]
          congr 1
          funext j
          simp only [List.mem_cons]
          split_ifs <;> simp_all
        have hzones : ks.map ((t.setZone n k 0).zone n) = ks.map (s.zone n) := by
          refine List.map_congr_left fun j hj => ?_
          have hjk : j ≠ k := fun heq => hk (heq ▸ hj)
          rw [hset]
          unfold State.put State.zone Inode.cut
          dsimp only
          rw [Function.update_self]
          exact if_neg (by simpa using hjk)
        show (t.setZone n k 0).freeDirect n ks =
          (t.each State.freeBlock (ks.map (s.zone n))).map (·.put n ((s.inode n).cut (k :: ks)))
        rw [ih _ hks, hcut, hzones, hset, each_put, Option.map_map]
        refine congrArg (fun f => Option.map f _) (funext fun u => ?_)
        exact put_put ..

/-- The places of a tree, in the order in which `truncate` frees them. -/
def places : List Pos :=
  (List.range 7).map .zone ++ (((List.range 512).map .entry ++ [.zone 7]) ++
    ((List.range 512).flatMap (fun b => (List.range 512).map (.leaf b) ++ [.mid b]) ++ [.zone 8]))

theorem mem_places : p ∈ places ↔ p.Valid := by
  unfold places
  simp only [List.mem_append, List.mem_map, List.mem_range, List.mem_flatMap, List.mem_singleton]
  unfold Pos.Valid
  constructor
  · rintro (⟨j, hj, rfl⟩ | (⟨j, hj, rfl⟩ | rfl) | (⟨j, hj, ⟨c, hc, rfl⟩ | rfl⟩ | rfl))
    all_goals dsimp only
    all_goals omega
  · intro h
    cases p with
    | zone k =>
      have hcases : k < 7 ∨ k = 7 ∨ k = 8 := by omega
      rcases hcases with hk | rfl | rfl
      · exact Or.inl ⟨k, hk, rfl⟩
      · exact Or.inr (Or.inl (Or.inr rfl))
      · exact Or.inr (Or.inr (Or.inr rfl))
    | entry b => exact Or.inr (Or.inl (Or.inl ⟨b, h, rfl⟩))
    | mid b => exact Or.inr (Or.inr (Or.inl ⟨b, h, Or.inr rfl⟩))
    | leaf b c => exact Or.inr (Or.inr (Or.inl ⟨b, h.1, Or.inl ⟨c, h.2, rfl⟩⟩))

theorem nodup_places : places.Nodup := by
  have hinner : ∀ b : Nat, ((List.range 512).map (Pos.leaf b) ++ [Pos.mid b]).Nodup := by
    intro b
    refine List.nodup_append.mpr ⟨?_, List.nodup_singleton _, ?_⟩
    · exact List.nodup_range.map fun c c' heq => by cases heq; rfl
    · intro p hp q hq
      obtain ⟨c, -, rfl⟩ := List.mem_map.mp hp
      rw [List.mem_singleton.mp hq]
      exact Pos.noConfusion
  have hleaves : ((List.range 512).flatMap fun b => (List.range 512).map (Pos.leaf b) ++ [Pos.mid b]).Nodup := by
    refine List.nodup_flatMap.mpr ⟨fun b _ => hinner b, ?_⟩
    refine List.nodup_range.imp fun {b b'} hne p hp hp' => hne ?_
    rcases List.mem_append.mp hp with hp | hp <;> rcases List.mem_append.mp hp' with hp' | hp'
    · obtain ⟨c, -, rfl⟩ := List.mem_map.mp hp
      obtain ⟨c', -, heq⟩ := List.mem_map.mp hp'
      cases heq
      rfl
    · obtain ⟨c, -, rfl⟩ := List.mem_map.mp hp
      cases List.mem_singleton.mp hp'
    · obtain ⟨c, -, rfl⟩ := List.mem_map.mp hp'
      cases List.mem_singleton.mp hp
    · rw [List.mem_singleton.mp hp] at hp'
      cases List.mem_singleton.mp hp'
      rfl
  unfold places
  refine List.nodup_append.mpr ⟨?_, List.nodup_append.mpr ⟨List.nodup_append.mpr ⟨?_, List.nodup_singleton _, ?_⟩,
    List.nodup_append.mpr ⟨hleaves, List.nodup_singleton _, ?_⟩, ?_⟩, ?_⟩
  · exact List.nodup_range.map fun k k' heq => by cases heq; rfl
  · exact List.nodup_range.map fun b b' heq => by cases heq; rfl
  · intro p hp q hq
    obtain ⟨b, -, rfl⟩ := List.mem_map.mp hp
    rw [List.mem_singleton.mp hq]
    exact Pos.noConfusion
  · intro p hp q hq heq
    subst heq
    rw [List.mem_singleton.mp hq] at hp
    simp at hp
  · intro p hp q hq heq
    subst heq
    simp only [List.mem_append, List.mem_map, List.mem_range, List.mem_flatMap, List.mem_singleton] at hp hq
    rcases hp with ⟨b, -, rfl⟩ | rfl <;> rcases hq with ⟨c, -, ⟨d, -, heq⟩ | heq⟩ | heq <;> cases heq
  · intro p hp q hq heq
    subst heq
    obtain ⟨k, hk, rfl⟩ := List.mem_map.mp hp
    simp only [List.mem_append, List.mem_map, List.mem_range, List.mem_flatMap, List.mem_singleton] at hk hq
    rcases hq with (⟨b, -, heq⟩ | heq) | ⟨c, -, ⟨d, -, heq⟩ | heq⟩ | heq
    all_goals cases heq
    all_goals omega

theorem places_zones (s : State) (n : Nat) : places.map (s.at n) =
    (List.range 7).map (s.zone n) ++ (s.indZones (s.zone n 7) ++ s.dindZones (s.zone n 8)) := by
  unfold places State.indZones State.dindZones
  simp only [List.map_append, List.map_map, List.map_flatMap, List.map_cons, List.map_nil]
  rfl

/-- What `truncate` leaves: nothing at the places of the inode, and their bits clear. -/
theorem truncate_spec (h : Fair s) (hn : s.file n = true) : ∃ t, s.truncate n = some t ∧
    t.firstdatazone = s.firstdatazone ∧ t.nzones = s.nzones ∧ t.block = s.block ∧
    (∀ m, m ≠ n → t.inode m = s.inode m) ∧ (∀ k, k < 9 → t.zone n k = 0) ∧
    ∀ j, j ∈ t.zmap ↔ j ∈ s.zmap ∧ ∀ p, p.Valid → s.at n p ≠ 0 → s.bit (s.at n p) ≠ j := by
  have hused : ∀ z, z ∈ places.map (s.at n) → z ≠ 0 → Used s z := by
    intro z hz hne
    obtain ⟨p, hp, rfl⟩ := List.mem_map.mp hz
    have hhas : s.Has n p := ⟨hn, mem_places.mp hp⟩
    exact ⟨h.range n p hhas hne, h.held n p hhas hne⟩
  have hnodup : ((places.map (s.at n)).filter (· ≠ 0)).Nodup := by
    rw [List.filter_map]
    refine (nodup_places.filter _).map_on fun p hp q hq heq => ?_
    obtain ⟨hp, hne⟩ := List.mem_filter.mp hp
    have hhas : s.Has n p := ⟨hn, mem_places.mp hp⟩
    exact (h.once n p n q hhas ⟨hn, mem_places.mp (List.mem_filter.mp hq).1⟩ (by simpa using hne) heq).2
  obtain ⟨t, heach, hmem⟩ := each_spec h.first hused hnodup
  -- the three parts
  rw [places_zones, each_append] at heach
  obtain ⟨t₁, h₁, heach⟩ := Option.bind_eq_some_iff.mp heach
  rw [each_append] at heach
  obtain ⟨t₂, h₂, h₃⟩ := Option.bind_eq_some_iff.mp heach
  have hf₁ := each_frame h₁
  have hf₂ := each_frame h₂
  have hf₃ := each_frame h₃
  have hblock₁ : t₁.block = s.block := by rw [hf₁]
  have hblock₂ : t₂.block = s.block := by rw [hf₂]; exact hblock₁
  have hinode : t.inode = s.inode := by rw [hf₃]; rw [hf₂]; rw [hf₁]
  have hframe : t.firstdatazone = s.firstdatazone ∧ t.nzones = s.nzones ∧ t.block = s.block := by
    rw [hf₃]
    rw [hf₂]
    rw [hf₁]
    exact ⟨rfl, rfl, rfl⟩
  have hcut : ∀ u : State, ∀ k, 7 ≤ k → (u.put n ((s.inode n).cut (List.range 7))).zone n k = s.zone n k := by
    intro u k hk
    unfold State.put State.zone Inode.cut
    dsimp only
    rw [Function.update_self]
    exact if_neg (by simpa using hk)
  have hdirect : s.freeDirect n (List.range 7) = some (t₁.put n ((s.inode n).cut (List.range 7))) := by
    rw [freeDirect_eq s n List.nodup_range, h₁]
    rfl
  have hind : (t₁.put n ((s.inode n).cut (List.range 7))).freeInd (s.zone n 7) =
      some (t₂.put n ((s.inode n).cut (List.range 7))) := by
    rw [freeInd_eq, each_put]
    have hzones : (t₁.put n ((s.inode n).cut (List.range 7))).indZones (s.zone n 7) = s.indZones (s.zone n 7) :=
      indZones_congr hblock₁ _
    rw [hzones, h₂]
    rfl
  have hdind : (t₂.put n ((s.inode n).cut (List.range 7))).freeDind (s.zone n 8) =
      some (t.put n ((s.inode n).cut (List.range 7))) := by
    rw [freeDind_eq, each_put]
    have hzones : (t₂.put n ((s.inode n).cut (List.range 7))).dindZones (s.zone n 8) = s.dindZones (s.zone n 8) := by
      have hblock : (t₂.put n ((s.inode n).cut (List.range 7))).block = s.block := hblock₂
      unfold State.dindZones State.below
      rw [hblock, funext (indZones_congr hblock)]
    rw [hzones, h₃]
    rfl
  have hzone : ∀ m k, (((t.put n ((s.inode n).cut (List.range 7))).setZone n 7 0).setZone n 8 0).zone m k =
      if m = n ∧ k < 9 then 0 else s.zone m k := by
    intro m k
    unfold State.setZone State.put State.zone Inode.cut
    dsimp only
    by_cases hm : m = n
    · subst hm
      simp only [Function.update_self, Function.update_apply, List.mem_range, true_and]
      split_ifs <;> first | rfl | omega
    · simp only [Function.update_of_ne hm, hm, false_and, if_false, hinode]
  refine ⟨((t.put n ((s.inode n).cut (List.range 7))).setZone n 7 0).setZone n 8 0, ?_, hframe.1, hframe.2.1,
    hframe.2.2, fun m hm => ?_, fun k hk => ?_, fun j => ?_⟩
  · unfold State.truncate
    rw [if_pos hn, hdirect]
    show (((t₁.put n ((s.inode n).cut (List.range 7))).freeInd _).bind _) = _
    rw [hcut t₁ 7 (by omega), hind]
    show (((t₂.put n ((s.inode n).cut (List.range 7))).freeDind _).bind _) = _
    rw [hcut t₂ 8 (by omega), hdind]
    rfl
  · unfold State.setZone State.put
    dsimp only
    rw [Function.update_of_ne hm, Function.update_of_ne hm, Function.update_of_ne hm, hinode]
  · rw [hzone, if_pos ⟨rfl, hk⟩]
  · refine (hmem j).trans (and_congr_right fun _ => ⟨fun hall p hp => ?_, fun hall z hz => ?_⟩)
    · exact hall _ (List.mem_map.mpr ⟨p, mem_places.mpr hp, rfl⟩)
    · obtain ⟨p, hp, rfl⟩ := List.mem_map.mp hz
      exact hall p (mem_places.mp hp)

theorem at_zero {t : State} (h : ∀ k, k < 9 → t.zone n k = 0) (hp : p.Valid) : t.at n p = 0 := by
  have h₇ := h 7 (by omega)
  have h₈ := h 8 (by omega)
  cases p with
  | zone k => exact h k hp
  | entry b =>
    unfold State.at State.below
    exact if_pos h₇
  | mid b =>
    unfold State.at State.below
    exact if_pos h₈
  | leaf b c =>
    have hmid : t.below (t.zone n 8) b = 0 := if_pos h₈
    show t.below (t.below (t.zone n 8) b) c = 0
    rw [hmid]
    exact if_pos rfl

theorem at_other {t : State} {m : Nat} (hinode : t.inode m = s.inode m) (hblock : t.block = s.block) (q : Pos) :
    t.at m q = s.at m q := by
  cases q <;> (unfold State.at; unfold State.below State.zone; rw [hinode, hblock])

/-- An inode has lost its zones, and their bits are clear. -/
theorem good_clear (h : Good s) (hn : s.file n = true) {t : State} (hfirst : t.firstdatazone = s.firstdatazone)
    (hnzones : t.nzones = s.nzones) (hblock : t.block = s.block) (hother : ∀ m, m ≠ n → t.inode m = s.inode m)
    (hempty : ∀ k, k < 9 → t.zone n k = 0)
    (hzmap : ∀ j, j ∈ t.zmap ↔ j ∈ s.zmap ∧ ∀ p, p.Valid → s.at n p ≠ 0 → s.bit (s.at n p) ≠ j) : Good t := by
  have hpos := h.first
  have hat : ∀ m q, t.Has m q → t.at m q ≠ 0 → m ≠ n ∧ s.Has m q ∧ t.at m q = s.at m q := by
    intro m q hq hne
    have hm : m ≠ n := by
      rintro rfl
      exact hne (at_zero hempty hq.2)
    have hfile : t.file m = s.file m := by
      unfold State.file
      rw [hother m hm]
    exact ⟨hm, ⟨hfile.symm.trans hq.1, hq.2⟩, at_other (hother m hm) hblock q⟩
  have hbit : ∀ y, t.bit y = s.bit y := fun y => by
    unfold State.bit
    rw [hfirst]
  refine ⟨?_, ?_, fun m q hq hne => ?_, fun m q m' q' hq hq' hne heq => ?_, fun y hy hy' => ?_⟩
  · rw [hfirst]
    exact hpos
  · refine (hzmap 0).mpr ⟨h.zero, fun p hp hne heq => ?_⟩
    have hrange := h.range n p ⟨hn, hp⟩ hne
    unfold State.bit at heq
    omega
  · obtain ⟨-, hhas, hsame⟩ := hat m q hq hne
    rw [hsame] at hne ⊢
    rw [hfirst, hnzones]
    exact h.range m q hhas hne
  · obtain ⟨-, hhas, hsame⟩ := hat m q hq hne
    obtain ⟨-, hhas', hsame'⟩ := hat m' q' hq' (heq ▸ hne)
    rw [hsame] at hne heq
    rw [hsame'] at heq
    exact h.once m q m' q' hhas hhas' hne heq
  · rw [hfirst] at hy
    rw [hnzones] at hy'
    rw [hbit, hzmap, h.exact y hy hy']
    constructor
    · rintro ⟨⟨m, q, hq, hmq⟩, hleft⟩
      have hm : m ≠ n := by
        rintro rfl
        exact hleft q hq.2 (by omega) (by rw [hmq])
      refine ⟨m, q, ⟨?_, hq.2⟩, (at_other (hother m hm) hblock q).trans hmq⟩
      unfold State.file
      rw [hother m hm]
      exact hq.1
    · rintro ⟨m, q, hq, hmq⟩
      obtain ⟨hm, hhas, hsame⟩ := hat m q hq (by omega)
      rw [hsame] at hmq
      refine ⟨⟨m, q, hhas, hmq⟩, fun p hp hne heq => hm ?_⟩
      have hpy : s.at n p = y := bit_inj hpos hy (h.range n p ⟨hn, hp⟩ hne).1 heq
      exact (h.once n p m q ⟨hn, hp⟩ hhas hne (hpy.trans hmq.symm)).1.symm

theorem good_truncate (h : Good s) (n : Nat) : ∃ t, s.truncate n = some t ∧ Good t := by
  by_cases hn : s.file n = true
  · obtain ⟨t, heq, hfirst, hnzones, hblock, hother, hempty, hzmap⟩ := truncate_spec h.fair hn
    exact ⟨t, heq, good_clear h hn hfirst hnzones hblock hother hempty hzmap⟩
  · refine ⟨s, ?_, h⟩
    unfold State.truncate
    exact if_neg hn

theorem good_iput (h : Good s) (hn : s.file n = true) : ∃ t, s.iput n = some t ∧ Good t := by
  obtain ⟨t, heq, hfirst, hnzones, hblock, hother, -, hzmap⟩ := truncate_spec h.fair hn
  refine ⟨t.put n ⟨0, fun _ => 0⟩, ?_, good_clear h hn hfirst hnzones hblock (fun m hm => ?_) (fun k _ => ?_) hzmap⟩
  · unfold State.iput
    rw [heq]
    rfl
  · exact (Function.update_of_ne hm ..).trans (hother m hm)
  · unfold State.put State.zone
    dsimp only
    rw [Function.update_self]

/-! ## Runs -/

inductive Step (s : State) : State → Prop where
  | createBlock {n block y : Nat} {t : State} (hn : s.file n = true) (hb : block < 7 + 512 + 512 * 512)
      (hr : s.createBlock n block = some (t, y)) : Step s t
  | truncate {n : Nat} {t : State} (hr : s.truncate n = some t) : Step s t
  | iput {n : Nat} {t : State} (hn : s.file n = true) (hr : s.iput n = some t) : Step s t

theorem good_step (h : Good s) (hs : Step s s') : Good s' := by
  cases hs with
  | createBlock hn hb hr =>
    obtain ⟨t, y, heq, hgood, -⟩ := bmap_spec h hn hb true
    cases heq.symm.trans hr
    exact hgood
  | @truncate n t hr =>
    obtain ⟨t, heq, hgood⟩ := good_truncate h n
    cases heq.symm.trans hr
    exact hgood
  | iput hn hr =>
    obtain ⟨t, heq, hgood⟩ := good_iput h hn
    cases heq.symm.trans hr
    exact hgood

theorem good_reach {s₀ : State} (h₀ : Good s₀) (hr : Relation.ReflTransGen Step s₀ s) : Good s := by
  induction hr with
  | refl => exact h₀
  | tail _ hs ih => exact good_step ih hs

/-- The inode has the zone at the place. -/
def State.Owns (s : State) (x : Nat × Pos) (z : Nat) : Prop := s.Has x.1 x.2 ∧ s.at x.1 x.2 = z

/-- **Zones have one owner.** In every run the bit of a zone is set when one place has it, and
clear when none has; no place has a number that is no zone; and no call panics. -/
theorem zone_map {s₀ : State} (h₀ : Good s₀) (hr : Relation.ReflTransGen Step s₀ s) :
    (∀ z, s.firstdatazone ≤ z → z < s.nzones →
      (s.bit z ∈ s.zmap ∧ ∃! x, s.Owns x z) ∨ (s.bit z ∉ s.zmap ∧ ∀ x, ¬ s.Owns x z)) ∧
    (∀ x z, z ≠ 0 → s.Owns x z → s.firstdatazone ≤ z ∧ z < s.nzones) ∧
    (∀ n block, s.file n = true → block < 7 + 512 + 512 * 512 → s.createBlock n block ≠ none) ∧
    (∀ n, s.truncate n ≠ none) ∧ ∀ n, s.file n = true → s.iput n ≠ none := by
  have h := good_reach h₀ hr
  have hpos := h.first
  refine ⟨fun z hz hz' => ?_, ?_, fun n block hn hb => ?_, fun n => ?_, fun n hn => ?_⟩
  · by_cases hset : s.bit z ∈ s.zmap
    · obtain ⟨n, p, hp, hat⟩ := (h.exact z hz hz').mp hset
      refine Or.inl ⟨hset, (n, p), ⟨hp, hat⟩, fun x hx => ?_⟩
      obtain ⟨hn, hq⟩ := h.once x.1 x.2 n p hx.1 hp (by rw [hx.2]; omega) (hx.2.trans hat.symm)
      exact Prod.ext hn hq
    · exact Or.inr ⟨hset, fun x hx => hset ((h.exact z hz hz').mpr ⟨x.1, x.2, hx⟩)⟩
  · rintro x z hne ⟨hx, rfl⟩
    exact h.range x.1 x.2 hx hne
  · obtain ⟨t, y, heq, -⟩ := bmap_spec h hn hb true
    unfold State.createBlock
    rw [heq]
    exact Option.some_ne_none _
  · obtain ⟨t, heq, -⟩ := good_truncate h n
    rw [heq]
    exact Option.some_ne_none _
  · obtain ⟨t, heq, -⟩ := good_iput h hn
    rw [heq]
    exact Option.some_ne_none _

/-- Eight data zones, none of them used, and an empty file. -/
def blank : State where
  firstdatazone := 5
  nzones := 13
  bits := 8192
  zmap := {0}
  inode n := ⟨if n = 2 then 0o100644 else 0, fun _ => 0⟩
  block _ _ := 0

theorem good_blank : Good blank := by
  have hat : ∀ n p, p.Valid → blank.at n p = 0 := fun n p hp => at_zero (fun _ _ => rfl) hp
  refine ⟨by decide, by decide, fun n p hp hne => ?_, fun n p m q hp _ hne => ?_, fun z hz _ => ?_⟩
  · exact absurd (hat n p hp.2) hne
  · exact absurd (hat n p hp.2) hne
  · have hlow : (5 : Nat) ≤ z := hz
    constructor
    · intro hmem
      have hbit : z - (5 - 1) = 0 := by simpa [blank, State.bit] using hmem
      omega
    · rintro ⟨n, p, hp, heq⟩
      rw [hat n p hp.2] at heq
      omega

/-- A block that needs both levels of index blocks. -/
theorem zone_map_blank : ∃ t y, blank.createBlock 2 600 = some (t, y) ∧
    ∀ z, t.firstdatazone ≤ z → z < t.nzones →
      (t.bit z ∈ t.zmap ∧ ∃! x, t.Owns x z) ∨ (t.bit z ∉ t.zmap ∧ ∀ x, ¬ t.Owns x z) := by
  have hfile : blank.file 2 = true := by decide
  have hb : 600 < 7 + 512 + 512 * 512 := by decide
  obtain ⟨t, y, heq, -⟩ := bmap_spec good_blank hfile hb true
  exact ⟨t, y, heq, (zone_map good_blank (.single (.createBlock hfile hb heq))).1⟩

end Linux011.Fs.ZoneMap
