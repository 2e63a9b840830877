import Linux011.Lib.Coop

/-!
# Files — zones added by several tasks

`create_block` on one inode, by any number of tasks. `_bmap` looks at a slot of
the inode or of an index block, and where it is 0 takes a zone with `new_block`
and stores it. `new_block` marks the zone in the bitmap and then sleeps in
`getblk`, so another task may have filled the slot by the time of the store.

A slot is a zone field of the inode or an entry of an index block (`Slot`); the
tree of the inode are the slots of `InTree`, and a zone is `Owned` when a slot
of the tree names it.

* `Acc` — what the tasks keep: the zones taken by these calls are owned or in
  the hands of one task, and what was returned is what the tree says;
* `acc_take`, `acc_clear`, `acc_store`, `acc_log` — the steps;
* `create_block_agree` — over all runs in which a slot that is filled is still
  empty at that moment;
* `create_block_lost` — two calls of which one loses its zone.
-/

namespace Linux011.Fs.Bmap

open Linux011.Lib Linux011.Lib.Kernel

/-! ## The inode and the bitmap -/

/-- The inode's zones, the index blocks and the zone bitmap of its device, by
zone numbers: bits from `first` to `last`, zones that exist below `nzones`.
`returned` records what the calls have returned. -/
structure Zones where
  zone     : Nat → Nat
  ind      : Nat → Nat → Nat
  zmap     : Nat → Bool
  first    : Nat
  last     : Nat
  nzones   : Nat
  returned : List (Nat × Nat)

/-- A place for a zone number. -/
inductive Slot
  | zone (k : Nat)
  | entry (w b : Nat)
  deriving DecidableEq, Repr

def Zones.get (s : Zones) : Slot → Nat
  | .zone k => s.zone k
  | .entry w b => s.ind w b

def Zones.set (s : Zones) (z : Nat) : Slot → Zones
  | .zone k => { s with zone := Function.update s.zone k z }
  | .entry w b => { s with ind := Function.update s.ind w (Function.update (s.ind w) b z) }

/-- `set_bit` of `new_block`. -/
def Zones.mark (s : Zones) (z : Nat) : Zones :=
  { s with zmap := Function.update s.zmap z true }

/-- `clear_block` of `new_block`. -/
def Zones.clear (s : Zones) (z : Nat) : Zones :=
  { s with ind := Function.update s.ind z fun _ => 0 }

def Zones.log (s : Zones) (n z : Nat) : Zones := { s with returned := (n, z) :: s.returned }

/-- The first zone whose bit is clear. -/
def Zones.firstZero (s : Zones) : Option Nat :=
  ((List.range (s.last - s.first)).map (s.first + ·)).find? fun z => !s.zmap z

/-- `_bmap` without creation, when nobody else runs. -/
def Zones.bmap (s : Zones) (n : Nat) : Nat :=
  if n < 7 then s.zone n
  else if n - 7 < 512 then
    if s.zone 7 = 0 then 0 else s.ind (s.zone 7) (n - 7)
  else
    let m := n - 7 - 512
    if s.zone 8 = 0 then 0
    else if s.ind (s.zone 8) (m >>> 9) = 0 then 0
    else s.ind (s.ind (s.zone 8) (m >>> 9)) (m &&& 511)

/-! ## The code -/

/-- A bit is set for a zone; a zone is stored into a slot. -/
inductive Tag
  | take (z : Nat)
  | store (σ : Slot) (z : Nat)

abbrev M := Code Zones Tag Empty Unit

/-- `new_block`. It sleeps in `getblk`, after the bit is set. -/
def newBlock : M Nat := do
  let free ← Code.read Zones.firstZero
  match free with
  | none => return 0
  | some j =>
    let nzones ← Code.read Zones.nzones
    Code.atom (.take j) fun s => s.mark j
    if j ≥ nzones then return 0
    else
      Code.sleep
      Code.modify fun s => s.clear j
      return j

/-- `if (create && !i_zone[k]) i_zone[k] = new_block()`, and the zone there. -/
def fillZone (k : Nat) : M Nat := do
  let z ← Code.read fun s => s.zone k
  if z = 0 then
    let j ← newBlock
    Code.atom (.store (.zone k) j) fun s => s.set j (.zone k)
    Code.read fun s => s.zone k
  else return z

/-- The same for entry `b` of the index block `w`, whose buffer is held. -/
def fillEntry (w b : Nat) : M Nat := do
  let i ← Code.read fun s => s.ind w b
  if i = 0 then
    let j ← newBlock
    if j = 0 then return 0
    else
      Code.atom (.store (.entry w b) j) fun s => s.set j (.entry w b)
      return j
  else return i

/-- `bread` of an index block: 0 if it cannot be read. -/
def bread : M Nat := do
  Code.sleep
  Code.ask

/-- `_bmap` with creation. -/
def bmapCreate (n : Nat) : M Nat := do
  if n ≥ 7 + 512 + 512 * 512 then Code.panic
  else if n < 7 then fillZone n
  else if n - 7 < 512 then
    let z ← fillZone 7
    if z = 0 then return 0
    else
      let ok ← bread
      if ok = 0 then return 0
      else fillEntry z (n - 7)
  else
    let m := n - 7 - 512
    let z ← fillZone 8
    if z = 0 then return 0
    else
      let ok ← bread
      if ok = 0 then return 0
      else
        let i ← fillEntry z (m >>> 9)
        if i = 0 then return 0
        else
          let ok ← bread
          if ok = 0 then return 0
          else fillEntry i (m &&& 511)

/-- `create_block`, and the record of what it returns. -/
def createBlock (n : Nat) : M Unit := do
  let z ← bmapCreate n
  Code.modify fun s => s.log n z

/-- Tasks that extend the file. -/
def kernel : Kernel Zones Tag Empty Unit where
  body := fun p => p.elim
  env := fun _ _ => False
  ops := fun _ p => ∃ n, p = (createBlock n).toProg

/-! ## The tree -/

/-- The index blocks. -/
def Index (s : Zones) (w : Nat) : Prop :=
  w ≠ 0 ∧ (s.zone 7 = w ∨ s.zone 8 = w ∨ s.zone 8 ≠ 0 ∧ ∃ b < 512, s.ind (s.zone 8) b = w)

/-- The slots of the file. -/
def InTree (s : Zones) : Slot → Prop
  | .zone k => k < 9
  | .entry w b => Index s w ∧ b < 512

/-- The zones of the file: data and index blocks. -/
def Owned (s : Zones) (z : Nat) : Prop := z ≠ 0 ∧ ∃ σ, InTree s σ ∧ s.get σ = z

variable {s : Zones} {z w : Nat} {σ τ : Slot}

theorem owned_of_index (h : Index s w) : Owned s w := by
  obtain ⟨hw, h7 | h8 | ⟨h8, b, hb, hi⟩⟩ := h
  · exact ⟨hw, .zone 7, by show 7 < 9; omega, h7⟩
  · exact ⟨hw, .zone 8, by show 8 < 9; omega, h8⟩
  · exact ⟨hw, .entry (s.zone 8) b, ⟨⟨h8, Or.inr (Or.inl rfl)⟩, hb⟩, hi⟩

@[simp] theorem get_set_self (s : Zones) (z : Nat) (σ : Slot) : (s.set z σ).get σ = z := by
  cases σ <;> simp [Zones.set, Zones.get]

theorem get_set_of_ne (s : Zones) (z : Nat) (h : τ ≠ σ) : (s.set z σ).get τ = s.get τ := by
  cases σ with
  | zone k =>
    cases τ with
    | zone k' =>
      have hk : k' ≠ k := fun hk => h (by rw [hk])
      simp [Zones.set, Zones.get, Function.update_of_ne hk]
    | entry w b => rfl
  | entry w b =>
    cases τ with
    | zone k' => rfl
    | entry w' b' =>
      by_cases hw : w' = w
      · subst hw
        have hb : b' ≠ b := fun hb => h (by rw [hb])
        simp [Zones.set, Zones.get, Function.update_of_ne hb]
      · simp [Zones.set, Zones.get, Function.update_of_ne hw]

/-- A slot that held a zone still holds it after an empty one was filled. -/
theorem get_set_of_full (h0 : s.get σ = 0) (h : s.get τ ≠ 0) : (s.set z σ).get τ = s.get τ := by
  refine get_set_of_ne s z ?_
  rintro rfl
  exact h h0

/-- An empty slot that gets no zone. -/
theorem set_zero (h0 : s.get σ = 0) : s.set 0 σ = s := by
  cases σ with
  | zone k =>
    have h : s.zone k = 0 := h0
    simp only [Zones.set]
    rw [← h, Function.update_eq_self]
  | entry w b =>
    have h : s.ind w b = 0 := h0
    simp only [Zones.set]
    rw [← h, Function.update_eq_self, Function.update_eq_self]

theorem index_set (h0 : s.get σ = 0) (h : Index s w) : Index (s.set z σ) w := by
  obtain ⟨hw, h7 | h8 | ⟨h8, b, hb, hi⟩⟩ := h
  · have hz : (s.set z σ).zone 7 = s.zone 7 :=
      get_set_of_full (τ := .zone 7) h0 (by show s.zone 7 ≠ 0; rw [h7]; exact hw)
    exact ⟨hw, Or.inl (hz.trans h7)⟩
  · have hz : (s.set z σ).zone 8 = s.zone 8 :=
      get_set_of_full (τ := .zone 8) h0 (by show s.zone 8 ≠ 0; rw [h8]; exact hw)
    exact ⟨hw, Or.inr (Or.inl (hz.trans h8))⟩
  · have hz : (s.set z σ).zone 8 = s.zone 8 := get_set_of_full (τ := .zone 8) h0 h8
    have he : (s.set z σ).ind (s.zone 8) b = s.ind (s.zone 8) b :=
      get_set_of_full (τ := .entry (s.zone 8) b) h0 (by
        show s.ind (s.zone 8) b ≠ 0
        rw [hi]
        exact hw)
    exact ⟨hw, Or.inr (Or.inr ⟨by rw [hz]; exact h8, b, hb, by rw [hz, he, hi]⟩)⟩

theorem inTree_set (h0 : s.get σ = 0) (h : InTree s τ) : InTree (s.set z σ) τ := by
  cases τ with
  | zone k => exact h
  | entry w b => exact ⟨index_set h0 h.1, h.2⟩

/-- The only index block that a store can add is the zone stored. -/
theorem index_of_set (hind : ∀ b, s.ind z b = 0)
    (h : Index (s.set z σ) w) : Index s w ∨ w = z := by
  by_cases hwz : w = z
  · exact Or.inr hwz
  left
  obtain ⟨hw, h⟩ := h
  -- a slot that names `w` is not the one stored to
  have hslot : ∀ τ, (s.set z σ).get τ = w → s.get τ = w := by
    intro τ hτ
    by_cases hτσ : τ = σ
    · rw [hτσ, get_set_self] at hτ
      exact absurd hτ.symm hwz
    · rwa [get_set_of_ne s z hτσ] at hτ
  rcases h with h7 | h8 | ⟨h8, b, hb, hi⟩
  · exact ⟨hw, Or.inl (hslot (.zone 7) h7)⟩
  · exact ⟨hw, Or.inr (Or.inl (hslot (.zone 8) h8))⟩
  · have he := hslot (.entry ((s.set z σ).zone 8) b) hi
    by_cases hσ : σ = .zone 8
    · -- the index block itself is the zone stored, and it is empty
      have h8z : (s.set z σ).zone 8 = z := by
        rw [hσ]
        exact get_set_self s z (.zone 8)
      rw [h8z] at he
      have hempty := hind b
      change s.ind z b = w at he
      rw [hempty] at he
      exact absurd he.symm hw
    · have hz : (s.set z σ).zone 8 = s.zone 8 := get_set_of_ne (τ := .zone 8) s z (Ne.symm hσ)
      rw [hz] at h8 he
      exact ⟨hw, Or.inr (Or.inr ⟨h8, b, hb, he⟩)⟩

/-- **A store adds the zone stored** and nothing else. -/
theorem owned_of_set {y : Nat} (hind : ∀ b, s.ind z b = 0)
    (h : Owned (s.set z σ) y) : Owned s y ∨ y = z := by
  obtain ⟨hy, τ, hτ, hget⟩ := h
  by_cases hτσ : τ = σ
  · right
    rw [hτσ, get_set_self] at hget
    exact hget.symm
  rw [get_set_of_ne s z hτσ] at hget
  cases τ with
  | zone k => exact Or.inl ⟨hy, .zone k, hτ, hget⟩
  | entry w b =>
    rcases index_of_set hind hτ.1 with hw | rfl
    · exact Or.inl ⟨hy, .entry w b, ⟨hw, hτ.2⟩, hget⟩
    · have hempty : s.ind w b = y := hget
      rw [hind b] at hempty
      exact absurd hempty.symm hy

theorem owned_set {y : Nat} (h0 : s.get σ = 0) (h : Owned s y) : Owned (s.set z σ) y := by
  obtain ⟨hy, τ, hτ, hget⟩ := h
  refine ⟨hy, τ, inTree_set h0 hτ, ?_⟩
  rw [get_set_of_full h0 (by rw [hget]; exact hy), hget]

theorem owned_set_self (h0 : s.get σ = 0) (hσ : InTree s σ) (hz : z ≠ 0) :
    Owned (s.set z σ) z := ⟨hz, σ, inTree_set h0 hσ, get_set_self s z σ⟩

/-- A block that is not of the file may be cleared. -/
theorem get_clear (hz : ¬ Owned s z) (h : InTree s τ) : (s.clear z).get τ = s.get τ := by
  cases τ with
  | zone k => rfl
  | entry w b =>
    have hne : w ≠ z := by
      rintro rfl
      exact hz (owned_of_index h.1)
    simp [Zones.clear, Zones.get, Function.update_of_ne hne]

theorem index_clear (hz : ¬ Owned s z) : Index (s.clear z) w ↔ Index s w := by
  have h8 : s.zone 8 ≠ 0 → (s.clear z).ind (s.zone 8) = s.ind (s.zone 8) := by
    intro h
    have hne : s.zone 8 ≠ z := by
      rintro rfl
      exact hz (owned_of_index ⟨h, Or.inr (Or.inl rfl)⟩)
    simp [Zones.clear, Function.update_of_ne hne]
  show (w ≠ 0 ∧ (s.zone 7 = w ∨ s.zone 8 = w ∨
    s.zone 8 ≠ 0 ∧ ∃ b < 512, (s.clear z).ind (s.zone 8) b = w)) ↔ Index s w
  constructor
  · rintro ⟨hw, h | h | ⟨h, b, hb, hi⟩⟩
    · exact ⟨hw, Or.inl h⟩
    · exact ⟨hw, Or.inr (Or.inl h)⟩
    · rw [h8 h] at hi
      exact ⟨hw, Or.inr (Or.inr ⟨h, b, hb, hi⟩)⟩
  · rintro ⟨hw, h | h | ⟨h, b, hb, hi⟩⟩
    · exact ⟨hw, Or.inl h⟩
    · exact ⟨hw, Or.inr (Or.inl h)⟩
    · exact ⟨hw, Or.inr (Or.inr ⟨h, b, hb, by rw [h8 h]; exact hi⟩)⟩

theorem inTree_clear (hz : ¬ Owned s z) : InTree (s.clear z) τ ↔ InTree s τ := by
  cases τ with
  | zone k => exact Iff.rfl
  | entry w b => exact and_congr_left fun _ => index_clear hz

theorem owned_clear (hz : ¬ Owned s z) {y : Nat} : Owned (s.clear z) y ↔ Owned s y := by
  constructor
  · rintro ⟨hy, τ, hτ, hget⟩
    have hτ' := (inTree_clear hz).mp hτ
    rw [get_clear hz hτ'] at hget
    exact ⟨hy, τ, hτ', hget⟩
  · rintro ⟨hy, τ, hτ, hget⟩
    refine ⟨hy, τ, (inTree_clear hz).mpr hτ, ?_⟩
    rw [get_clear hz hτ, hget]

/-- What a block number stands for depends on slots that are all full. -/
theorem bmap_congr {s' : Zones} {n : Nat} (hn : n < 7 + 512 + 512 * 512) (hz : s.bmap n ≠ 0)
    (h : ∀ τ, InTree s τ → s.get τ ≠ 0 → s'.get τ = s.get τ) : s'.bmap n = s.bmap n := by
  unfold Zones.bmap at hz ⊢
  by_cases h7 : n < 7
  · simp only [if_pos h7] at hz ⊢
    exact h (.zone n) (by show n < 9; omega) hz
  · simp only [if_neg h7] at hz ⊢
    by_cases hs : n - 7 < 512
    · simp only [if_pos hs] at hz ⊢
      by_cases hz7 : s.zone 7 = 0
      · simp [hz7] at hz
      · simp only [if_neg hz7] at hz ⊢
        have e7 : s'.zone 7 = s.zone 7 := h (.zone 7) (by show 7 < 9; omega) hz7
        have he : s'.ind (s.zone 7) (n - 7) = s.ind (s.zone 7) (n - 7) :=
          h (.entry (s.zone 7) (n - 7)) ⟨⟨hz7, Or.inl rfl⟩, hs⟩ hz
        rw [e7, if_neg hz7, he]
    · simp only [if_neg hs] at hz ⊢
      have hm9 : (n - 7 - 512) >>> 9 < 512 := by
        rw [Nat.shiftRight_eq_div_pow]
        omega
      have hm : (n - 7 - 512) &&& 511 < 512 := by
        have := Nat.and_le_right (n := n - 7 - 512) (m := 511)
        omega
      by_cases hz8 : s.zone 8 = 0
      · simp [hz8] at hz
      · simp only [if_neg hz8] at hz ⊢
        by_cases hi : s.ind (s.zone 8) ((n - 7 - 512) >>> 9) = 0
        · simp [hi] at hz
        · simp only [if_neg hi] at hz ⊢
          have e8 : s'.zone 8 = s.zone 8 := h (.zone 8) (by show 8 < 9; omega) hz8
          have ei : s'.ind (s.zone 8) ((n - 7 - 512) >>> 9) =
              s.ind (s.zone 8) ((n - 7 - 512) >>> 9) :=
            h (.entry (s.zone 8) _) ⟨⟨hz8, Or.inr (Or.inl rfl)⟩, hm9⟩ hi
          have ej := h (.entry (s.ind (s.zone 8) ((n - 7 - 512) >>> 9)) ((n - 7 - 512) &&& 511))
            ⟨⟨hi, Or.inr (Or.inr ⟨hz8, _, hm9, rfl⟩)⟩, hm⟩ hz
          change s'.ind _ _ = s.ind _ _ at ej
          rw [e8, if_neg hz8, ei, if_neg hi, ej]

/-! ## What the tasks keep -/

/-- The zone a task has taken and not stored yet, and the slots it has seen full. -/
structure Ghost where
  held  : Option Nat
  known : List (Slot × Nat)

/-- The number of blocks a file can have. -/
def maxBlock : Nat := 7 + 512 + 512 * 512

/-- The accounts; `zmap₀` is the bitmap at the start. -/
structure Acc (zmap₀ : Nat → Bool) (G : Nat → Ghost) (s : Zones) : Prop where
  first    : 0 < s.first
  owned    : ∀ z, Owned s z → s.zmap z = true
  held     : ∀ t z, (G t).held = some z → z ≠ 0 ∧ s.zmap z = true ∧ ¬ Owned s z
  sole     : ∀ t t' z, (G t).held = some z → (G t').held = some z → t = t'
  taken    : ∀ z, s.zmap z = true → zmap₀ z = true ∨ Owned s z ∨ ∃ t, (G t).held = some z
  known    : ∀ t σ v, (σ, v) ∈ (G t).known → v ≠ 0 ∧ InTree s σ ∧ s.get σ = v
  returned : ∀ n z, (n, z) ∈ s.returned → z ≠ 0 → n < maxBlock ∧ s.bmap n = z

variable {zmap₀ : Nat → Bool} {G : Nat → Ghost} {t : Nat}

/-- The ghosts of the other tasks. -/
theorem ghost_cases {g : Ghost} {t' : Nat} {p : Ghost → Prop} (hg : p g)
    (h : t' ≠ t → p (G t')) : p (Function.update G t g t') := by
  by_cases ht : t' = t
  · rw [ht, Function.update_self]
    exact hg
  · rw [Function.update_of_ne ht]
    exact h ht

/-- `set_bit` on a clear bit: the zone is in the hands of the task. -/
theorem acc_take (A : Acc zmap₀ G s) {j : Nat} (hj : s.zmap j = false) (hj0 : j ≠ 0)
    (hnone : (G t).held = none) :
    Acc zmap₀ (Function.update G t ⟨some j, (G t).known⟩) (s.mark j) := by
  have hfree : ¬ Owned s j := by
    intro h
    rw [A.owned j h] at hj
    cases hj
  have hmark : ∀ z, s.zmap z = true → (s.mark j).zmap z = true := by
    intro z hz
    by_cases hzj : z = j
    · simp [Zones.mark, hzj]
    · simpa [Zones.mark, Function.update_of_ne hzj] using hz
  -- nobody else has the zone
  have hother : ∀ t', (G t').held ≠ some j := by
    intro t' h
    rw [(A.held t' j h).2.1] at hj
    cases hj
  refine ⟨A.first, fun z hz => hmark z (A.owned z hz), ?_, ?_, ?_, ?_, A.returned⟩
  · intro t' z
    refine ghost_cases (p := fun g => g.held = some z → z ≠ 0 ∧ (s.mark j).zmap z = true ∧ _) ?_ ?_
    · intro h
      cases h
      exact ⟨hj0, by simp [Zones.mark], hfree⟩
    · intro _ h
      obtain ⟨h1, h2, h3⟩ := A.held t' z h
      exact ⟨h1, hmark z h2, h3⟩
  · intro t₁ t₂ z h₁ h₂
    by_cases e₁ : t₁ = t <;> by_cases e₂ : t₂ = t
    · rw [e₁, e₂]
    · rw [e₁, Function.update_self] at h₁
      rw [Function.update_of_ne e₂] at h₂
      cases h₁
      exact absurd h₂ (hother t₂)
    · rw [e₂, Function.update_self] at h₂
      rw [Function.update_of_ne e₁] at h₁
      cases h₂
      exact absurd h₁ (hother t₁)
    · rw [Function.update_of_ne e₁] at h₁
      rw [Function.update_of_ne e₂] at h₂
      exact A.sole t₁ t₂ z h₁ h₂
  · intro z hz
    by_cases hzj : z = j
    · right
      right
      exact ⟨t, by rw [Function.update_self, hzj]⟩
    · have hz' : s.zmap z = true := by simpa [Zones.mark, Function.update_of_ne hzj] using hz
      rcases A.taken z hz' with h | h | ⟨t', h⟩
      · exact Or.inl h
      · exact Or.inr (Or.inl h)
      · right
        right
        have hne : t' ≠ t := by
          rintro rfl
          rw [hnone] at h
          cases h
        exact ⟨t', by rw [Function.update_of_ne hne]; exact h⟩
  · intro t' σ v
    exact ghost_cases (p := fun g => (σ, v) ∈ g.known → v ≠ 0 ∧ InTree s σ ∧ s.get σ = v)
      (A.known t σ v) fun _ => A.known t' σ v

/-- `clear_block` on the zone in hand. -/
theorem acc_clear (A : Acc zmap₀ G s) {j : Nat} (hheld : (G t).held = some j) :
    Acc zmap₀ G (s.clear j) := by
  have hfree := (A.held t j hheld).2.2
  refine ⟨A.first, fun z hz => A.owned z ((owned_clear hfree).mp hz), ?_, A.sole, ?_, ?_, ?_⟩
  · intro t' z h
    obtain ⟨h1, h2, h3⟩ := A.held t' z h
    exact ⟨h1, h2, fun ho => h3 ((owned_clear hfree).mp ho)⟩
  · intro z hz
    rcases A.taken z hz with h | h | h
    · exact Or.inl h
    · exact Or.inr (Or.inl ((owned_clear hfree).mpr h))
    · exact Or.inr (Or.inr h)
  · intro t' σ v h
    obtain ⟨h1, h2, h3⟩ := A.known t' σ v h
    exact ⟨h1, (inTree_clear hfree).mpr h2, by rw [get_clear hfree h2, h3]⟩
  · intro n z h hz
    obtain ⟨hn, hb⟩ := A.returned n z h hz
    refine ⟨hn, ?_⟩
    rw [bmap_congr hn (by rw [hb]; exact hz) fun τ hτ _ => get_clear hfree hτ, hb]

theorem set_fields (z : Nat) (σ : Slot) :
    (s.set z σ).zmap = s.zmap ∧ (s.set z σ).first = s.first ∧
      (s.set z σ).returned = s.returned := by
  cases σ <;> exact ⟨rfl, rfl, rfl⟩

/-- **A zone is stored** into an empty slot of the file: it is the file's. -/
theorem acc_store (A : Acc zmap₀ G s) {j : Nat} (hheld : (G t).held = some j)
    (hind : ∀ b, s.ind j b = 0) (hσ : InTree s σ) (h0 : s.get σ = 0) :
    Acc zmap₀ (Function.update G t ⟨none, (σ, j) :: (G t).known⟩) (s.set j σ) := by
  obtain ⟨hj0, hjmap, hfree⟩ := A.held t j hheld
  obtain ⟨hzmap, hfirst, hret⟩ := set_fields (s := s) j σ
  have hknown : ∀ t' τ v, (τ, v) ∈ (G t').known →
      v ≠ 0 ∧ InTree (s.set j σ) τ ∧ (s.set j σ).get τ = v := by
    intro t' τ v h
    obtain ⟨h1, h2, h3⟩ := A.known t' τ v h
    exact ⟨h1, inTree_set h0 h2, by rw [get_set_of_full h0 (by rw [h3]; exact h1), h3]⟩
  refine ⟨by rw [hfirst]; exact A.first, ?_, ?_, ?_, ?_, ?_, ?_⟩
  · intro z hz
    rw [hzmap]
    rcases owned_of_set hind hz with h | rfl
    · exact A.owned z h
    · exact hjmap
  · intro t' z
    refine ghost_cases (p := fun g => g.held = some z →
      z ≠ 0 ∧ (s.set j σ).zmap z = true ∧ ¬ Owned (s.set j σ) z) (fun h => (by cases h)) ?_
    intro hne h
    obtain ⟨h1, h2, h3⟩ := A.held t' z h
    refine ⟨h1, by rw [hzmap]; exact h2, fun ho => ?_⟩
    rcases owned_of_set hind ho with ho | rfl
    · exact h3 ho
    · exact hne (A.sole t' t z h hheld)
  · intro t₁ t₂ z h₁ h₂
    have hold : ∀ t', (Function.update G t ⟨none, (σ, j) :: (G t).known⟩ t').held = some z →
        (G t').held = some z := by
      intro t'
      exact ghost_cases (p := fun g => g.held = some z → (G t').held = some z)
        (fun h => (by cases h)) fun _ h => h
    exact A.sole t₁ t₂ z (hold t₁ h₁) (hold t₂ h₂)
  · intro z hz
    rw [hzmap] at hz
    rcases A.taken z hz with h | h | ⟨t', h⟩
    · exact Or.inl h
    · exact Or.inr (Or.inl (owned_set h0 h))
    · by_cases ht : t' = t
      · rw [ht, hheld] at h
        cases h
        exact Or.inr (Or.inl (owned_set_self h0 hσ hj0))
      · exact Or.inr (Or.inr ⟨t', by rw [Function.update_of_ne ht]; exact h⟩)
  · intro t' τ v
    refine ghost_cases (p := fun g => (τ, v) ∈ g.known →
      v ≠ 0 ∧ InTree (s.set j σ) τ ∧ (s.set j σ).get τ = v) ?_ fun _ => hknown t' τ v
    intro h
    rcases List.mem_cons.mp h with h | h
    · cases h
      exact ⟨hj0, inTree_set h0 hσ, get_set_self s j σ⟩
    · exact hknown t τ v h
  · intro n z h hz
    rw [hret] at h
    obtain ⟨hn, hb⟩ := A.returned n z h hz
    refine ⟨hn, ?_⟩
    rw [bmap_congr hn (by rw [hb]; exact hz) fun τ _ hτ => get_set_of_full h0 hτ, hb]

/-- A slot was seen full. -/
theorem acc_learn (A : Acc zmap₀ G s) (hσ : InTree s σ) (hz : z ≠ 0) (hget : s.get σ = z) :
    Acc zmap₀ (Function.update G t ⟨(G t).held, (σ, z) :: (G t).known⟩) s := by
  have hheld : ∀ t', (Function.update G t ⟨(G t).held, (σ, z) :: (G t).known⟩ t').held =
      (G t').held := by
    intro t'
    by_cases ht : t' = t
    · rw [ht, Function.update_self]
    · rw [Function.update_of_ne ht]
  refine ⟨A.first, A.owned, ?_, ?_, ?_, ?_, A.returned⟩
  · intro t' y
    rw [hheld]
    exact A.held t' y
  · intro t₁ t₂ y
    rw [hheld, hheld]
    exact A.sole t₁ t₂ y
  · intro y hy
    simp only [hheld]
    exact A.taken y hy
  · intro t' τ v
    refine ghost_cases (p := fun g => (τ, v) ∈ g.known → v ≠ 0 ∧ InTree s τ ∧ s.get τ = v) ?_
      fun _ => A.known t' τ v
    intro h
    rcases List.mem_cons.mp h with h | h
    · cases h
      exact ⟨hz, hσ, hget⟩
    · exact A.known t τ v h

/-- A result is returned. -/
theorem acc_log (A : Acc zmap₀ G s) {n : Nat} (h : z ≠ 0 → n < maxBlock ∧ s.bmap n = z) :
    Acc zmap₀ G (s.log n z) := by
  refine ⟨A.first, A.owned, A.held, A.sole, A.taken, A.known, ?_⟩
  intro n' z' hm hz'
  rcases List.mem_cons.mp hm with hm | hm
  · cases hm
    exact h hz'
  · exact A.returned n' z' hm hz'

/-! ## The code keeps it -/

/-- The condition of the runs: a bit is set for a zone that exists, and a zone
is stored into a slot that is still empty. -/
def allow : Tag → Zones → Prop
  | .take z, s => z < s.nzones
  | .store σ _, s => s.get σ = 0

def contract (zmap₀ : Nat → Bool) : Contract kernel Ghost where
  inv := Acc zmap₀
  allow := allow
  check := fun _ _ _ => True
  rest := fun g => g.held = none
  inv_env := fun _ _ _ _ h => h.elim
  reads := fun _ _ _ => trivial

/-- A task with no zone in hand that has seen the slots of `F` full. -/
def Knows (F : List (Slot × Nat)) (g : Ghost) : Prop := g.held = none ∧ ∀ x ∈ F, x ∈ g.known

/-- A task with a new, cleared zone in hand, or without one. -/
def Took (F : List (Slot × Nat)) (z : Nat) (g : Ghost) (s : Zones) : Prop :=
  (∀ x ∈ F, x ∈ g.known) ∧
    (z = 0 ∧ g.held = none ∨ z ≠ 0 ∧ g.held = some z ∧ ∀ b, s.ind z b = 0)

theorem stable_any (P : Ghost → Zones → Prop) : Stable (contract zmap₀) P :=
  fun _ _ _ _ _ _ h => h.elim

theorem firstZero_spec {j : Nat} (h : s.firstZero = some j) : s.first ≤ j ∧ s.zmap j = false := by
  unfold Zones.firstZero at h
  have hp := List.find?_some h
  have hm := List.mem_of_find?_eq_some h
  rw [List.mem_map] at hm
  obtain ⟨i, -, rfl⟩ := hm
  exact ⟨Nat.le_add_right _ _, by simpa using hp⟩

theorem newBlock_spec (n : Nat) (F : List (Slot × Nat)) :
    Holds (contract zmap₀) n newBlock (fun g _ => Knows F g) (fun z g s => Took F z g s) := by
  unfold newBlock
  refine holds_bind (holds_read (Q := fun free g s => Knows F g ∧ s.firstZero = free)
    (stable_any _) fun _ _ _ _ h => ⟨h, rfl⟩) fun free => ?_
  cases free with
  | none => exact holds_pure fun _ _ _ _ h => ⟨h.1.2, Or.inl ⟨rfl, h.1.1⟩⟩
  | some j =>
    refine holds_bind (holds_read (Q := fun nz g s => (Knows F g ∧ s.firstZero = some j) ∧
      s.nzones = nz) (stable_any _) fun _ _ _ _ h => ⟨h, rfl⟩) fun nz => ?_
    -- the bit is set: the zone is in hand
    refine holds_bind (R := fun _ g _ => j < nz ∧ g.held = some j ∧ ∀ x ∈ F, x ∈ g.known)
      (holds_atom (stable_any _) ?_) fun _ => ?_
    · rintro G t s A ⟨⟨hk, hfree⟩, hnz⟩ hallow
      obtain ⟨hj, hmap⟩ := firstZero_spec hfree
      have hpos := A.first
      refine ⟨trivial, ⟨some j, (G t).known⟩, acc_take A hmap (by omega) hk.1, ?_, rfl, hk.2⟩
      rw [← hnz]
      exact hallow
    · refine holds_ite (fun hge => ?_) fun _ => ?_
      · exact holds_fact (p := False) (fun h => h.elim) fun _ _ h => by omega
      · refine holds_bind ((holds_sleep fun g => g.held = some j ∧ ∀ x ∈ F, x ∈ g.known).pre
          fun _ _ h => h.2) fun _ => ?_
        refine holds_bind (R := fun _ g s => (j ≠ 0 ∧ g.held = some j ∧ ∀ x ∈ F, x ∈ g.known) ∧
          ∀ b, s.ind j b = 0) (holds_modify (stable_any _) ?_) fun _ => ?_
        · rintro G t s A ⟨hheld, hF⟩
          refine ⟨trivial, G t, ?_, ⟨(A.held t j hheld).1, hheld, hF⟩, ?_⟩
          · rw [Function.update_eq_self]
            exact acc_clear A hheld
          · intro b
            simp [Zones.clear]
        · exact holds_pure fun _ _ _ _ h => ⟨h.1.2.2, Or.inr ⟨h.1.1, h.1.2.1, h.2⟩⟩

/-- The store of what `new_block` returned, 0 or a new zone. -/
theorem store_spec (n : Nat) (F : List (Slot × Nat)) (σ : Slot) (j : Nat)
    (hσ : ∀ G (t : Nat) s, Acc zmap₀ G s → (∀ x ∈ F, x ∈ (G t).known) → InTree s σ) :
    Holds (contract zmap₀) n (Code.atom (.store σ j) fun s => s.set j σ : M Unit)
      (fun g s => Took F j g s)
      (fun _ g s => Knows F g ∧ s.get σ = j ∧ (j ≠ 0 → (σ, j) ∈ g.known)) := by
  refine holds_atom (stable_any _) ?_
  rintro G t s A ⟨hF, ⟨rfl, hnone⟩ | ⟨hj, hheld, hind⟩⟩ h0
  · -- no zone was free: the empty slot stays empty
    have hsame : s.set 0 σ = s := set_zero h0
    refine ⟨trivial, G t, ?_, ⟨hnone, hF⟩, by rw [hsame]; exact h0, fun h => absurd rfl h⟩
    rw [Function.update_eq_self, hsame]
    exact A
  · refine ⟨trivial, _, acc_store A hheld hind (hσ G t s A hF) h0, ⟨rfl, ?_⟩,
      get_set_self s j σ, fun _ => List.mem_cons_self ..⟩
    exact fun x hx => List.mem_cons_of_mem _ (hF x hx)

/-- What is learnt from a slot that is read. -/
theorem learn_spec (n : Nat) (F : List (Slot × Nat)) (σ : Slot) (f : Zones → Nat)
    (hf : ∀ s, f s = s.get σ)
    (hσ : ∀ G (t : Nat) s, Acc zmap₀ G s → (∀ x ∈ F, x ∈ (G t).known) → InTree s σ) :
    Holds (contract zmap₀) n (Code.read f : M Nat) (fun g _ => Knows F g)
      (fun z g _ => Knows F g ∧ (z ≠ 0 → (σ, z) ∈ g.known)) := by
  refine holds_act (stable_any _) ?_
  intro G t s A _ hk _
  refine ⟨trivial, ?_⟩
  by_cases hz : f s = 0
  · refine ⟨G t, by rw [Function.update_eq_self]; exact A, hk, fun h => absurd hz h⟩
  · refine ⟨_, acc_learn A (hσ G t s A hk.2) hz (hf s).symm, ⟨hk.1, ?_⟩,
      fun _ => List.mem_cons_self ..⟩
    exact fun x hx => List.mem_cons_of_mem _ (hk.2 x hx)

theorem fillZone_spec (n : Nat) (F : List (Slot × Nat)) {k : Nat} (hk : k < 9) :
    Holds (contract zmap₀) n (fillZone k) (fun g _ => Knows F g)
      (fun z g _ => Knows F g ∧ (z ≠ 0 → (.zone k, z) ∈ g.known)) := by
  unfold fillZone
  refine holds_bind (learn_spec n F (.zone k) _ (fun _ => rfl) fun _ _ _ _ _ => hk) fun z => ?_
  refine holds_ite (fun _ => ?_) fun _ => holds_pure fun _ _ _ _ h => h
  refine holds_bind ((newBlock_spec n F).pre fun _ _ h => h.1) fun j => ?_
  refine holds_bind (store_spec n F (.zone k) j fun _ _ _ _ _ => hk) fun _ => ?_
  refine holds_read (stable_any _) ?_
  rintro G t s _ ⟨hF, hget, hknown⟩
  change s.zone k = j at hget
  rw [hget]
  exact ⟨hF, hknown⟩

theorem fillEntry_spec (n : Nat) (F : List (Slot × Nat)) {w b : Nat} (hb : b < 512)
    (hw : ∀ G (t : Nat) s, Acc zmap₀ G s → (∀ x ∈ F, x ∈ (G t).known) → Index s w) :
    Holds (contract zmap₀) n (fillEntry w b) (fun g _ => Knows F g)
      (fun z g _ => Knows F g ∧ (z ≠ 0 → (.entry w b, z) ∈ g.known)) := by
  have hσ : ∀ G (t : Nat) s, Acc zmap₀ G s → (∀ x ∈ F, x ∈ (G t).known) → InTree s (.entry w b) :=
    fun G t s A hF => ⟨hw G t s A hF, hb⟩
  unfold fillEntry
  refine holds_bind (learn_spec n F (.entry w b) _ (fun _ => rfl) hσ) fun i => ?_
  refine holds_ite (fun _ => ?_) fun _ => holds_pure fun _ _ _ _ h => h
  refine holds_bind ((newBlock_spec n F).pre fun _ _ h => h.1) fun j => ?_
  refine holds_ite (fun hj => ?_) fun hj => ?_
  · refine holds_pure fun G t s _ h => ?_
    rcases h.2 with ⟨-, hnone⟩ | ⟨hne, -⟩
    · exact ⟨⟨hnone, h.1⟩, fun h0 => absurd rfl h0⟩
    · exact absurd hj hne
  · refine holds_bind (store_spec n F (.entry w b) j hσ) fun _ => ?_
    exact holds_pure fun _ _ _ _ h => ⟨h.1, h.2.2⟩

theorem bread_spec (n : Nat) (p : Ghost → Prop) :
    Holds (contract zmap₀) n bread (fun g _ => p g) (fun _ g _ => p g) :=
  holds_bind (holds_sleep p) fun _ => holds_ask (stable_any _) fun _ _ _ _ _ h => h

theorem shiftRight_lt {b : Nat} (hb : b < maxBlock) : (b - 7 - 512) >>> 9 < 512 := by
  rw [Nat.shiftRight_eq_div_pow]
  unfold maxBlock at hb
  omega

theorem and_511_lt (m : Nat) : m &&& 511 < 512 := by
  have h := Nat.and_le_right (n := m) (m := 511)
  omega

/-- A zone of the inode below 7. -/
theorem known_direct (A : Acc zmap₀ G s) {b : Nat} (hb : b < 7)
    (hk : (Slot.zone b, z) ∈ (G t).known) : s.bmap b = z := by
  have h := (A.known t _ _ hk).2.2
  unfold Zones.bmap
  rw [if_pos hb]
  exact h

/-- An entry of the first index block. -/
theorem known_single (A : Acc zmap₀ G s) {b : Nat} (h7 : ¬ b < 7) (hb : b - 7 < 512)
    (hw : (Slot.zone 7, w) ∈ (G t).known) (hk : (Slot.entry w (b - 7), z) ∈ (G t).known) :
    s.bmap b = z := by
  obtain ⟨hw0, -, hw'⟩ := A.known t _ _ hw
  have h := (A.known t _ _ hk).2.2
  change s.zone 7 = w at hw'
  unfold Zones.bmap
  rw [if_neg h7, if_pos hb, hw', if_neg hw0]
  exact h

/-- An entry of a block the second index block names. -/
theorem known_double (A : Acc zmap₀ G s) {b i : Nat} (h7 : ¬ b < 7) (hb : ¬ b - 7 < 512)
    (hw : (Slot.zone 8, w) ∈ (G t).known)
    (hi : (Slot.entry w ((b - 7 - 512) >>> 9), i) ∈ (G t).known)
    (hk : (Slot.entry i ((b - 7 - 512) &&& 511), z) ∈ (G t).known) : s.bmap b = z := by
  obtain ⟨hw0, -, hw'⟩ := A.known t _ _ hw
  obtain ⟨hi0, -, hi'⟩ := A.known t _ _ hi
  have h := (A.known t _ _ hk).2.2
  change s.zone 8 = w at hw'
  change s.ind w ((b - 7 - 512) >>> 9) = i at hi'
  unfold Zones.bmap
  simp only [if_neg h7, if_neg hb, hw', if_neg hw0, hi', if_neg hi0]
  exact h

/-- **`_bmap`** with creation, whatever the other tasks do meanwhile: the zone it
returns is the one recorded. -/
theorem bmapCreate_spec (n b : Nat) :
    Holds (contract zmap₀) n (bmapCreate b) (fun g _ => Knows [] g)
      (fun z g s => g.held = none ∧ (z ≠ 0 → b < maxBlock ∧ s.bmap b = z)) := by
  unfold bmapCreate
  refine holds_ite (fun _ => holds_panic) fun hmax => ?_
  have hb : b < maxBlock := by
    unfold maxBlock
    omega
  refine holds_ite (fun h7 => ?_) fun h7 => holds_ite (fun hs => ?_) fun hs => ?_
  · refine (holds_post (fillZone_spec n [] (show b < 9 by omega)) ?_)
    intro z G t s A h
    exact ⟨h.1.1, fun hz => ⟨hb, known_direct A h7 (h.2 hz)⟩⟩
  · refine holds_bind (fillZone_spec n [] (show 7 < 9 by omega)) fun w => ?_
    refine holds_ite (fun _ => holds_pure fun _ _ _ _ h => ⟨h.1.1, fun h0 => absurd rfl h0⟩)
      fun hw => ?_
    refine holds_bind ((bread_spec n (Knows [(.zone 7, w)])).pre fun g s h => ⟨h.1.1, by
      simpa using h.2 hw⟩) fun ok => ?_
    refine holds_ite (fun _ => holds_pure fun _ _ _ _ h => ⟨h.1, fun h0 => absurd rfl h0⟩)
      fun _ => ?_
    refine holds_post (fillEntry_spec n [(.zone 7, w)] hs ?_) ?_
    · intro G t s A hF
      exact ⟨hw, Or.inl (A.known t _ _ (hF (.zone 7, w) (by simp))).2.2⟩
    · intro z G t s A h
      have hzone := h.1.2 (.zone 7, w) (by simp)
      exact ⟨h.1.1, fun hz => ⟨hb, known_single A h7 hs hzone (h.2 hz)⟩⟩
  · dsimp only
    refine holds_bind (fillZone_spec n [] (show 8 < 9 by omega)) fun w => ?_
    refine holds_ite (fun _ => holds_pure fun _ _ _ _ h => ⟨h.1.1, fun h0 => absurd rfl h0⟩)
      fun hw => ?_
    refine holds_bind ((bread_spec n (Knows [(.zone 8, w)])).pre fun g s h => ⟨h.1.1, by
      simpa using h.2 hw⟩) fun ok => ?_
    refine holds_ite (fun _ => holds_pure fun _ _ _ _ h => ⟨h.1, fun h0 => absurd rfl h0⟩)
      fun _ => ?_
    refine holds_bind (fillEntry_spec n [(.zone 8, w)] (shiftRight_lt hb) ?_) fun i => ?_
    · intro G t s A hF
      exact ⟨hw, Or.inr (Or.inl (A.known t _ _ (hF (.zone 8, w) (by simp))).2.2)⟩
    refine holds_ite (fun _ => holds_pure fun _ _ _ _ h => ⟨h.1.1, fun h0 => absurd rfl h0⟩)
      fun hi => ?_
    refine holds_bind ((bread_spec n (Knows [(.zone 8, w), (.entry w ((b - 7 - 512) >>> 9), i)])).pre
      fun g s h => ⟨h.1.1, by simpa using ⟨h.1.2 (.zone 8, w) (by simp), h.2 hi⟩⟩) fun ok => ?_
    refine holds_ite (fun _ => holds_pure fun _ _ _ _ h => ⟨h.1, fun h0 => absurd rfl h0⟩)
      fun _ => ?_
    refine holds_post (fillEntry_spec n _ (and_511_lt _) ?_) ?_
    · intro G t s A hF
      have h8 : s.zone 8 = w := (A.known t _ _ (hF (.zone 8, w) (by simp))).2.2
      have hi8 : s.ind w ((b - 7 - 512) >>> 9) = i :=
        (A.known t _ _ (hF (.entry w ((b - 7 - 512) >>> 9), i) (by simp))).2.2
      exact ⟨hi, Or.inr (Or.inr ⟨by rw [h8]; exact hw, _, shiftRight_lt hb, by rw [h8]; exact hi8⟩)⟩
    · intro z G t s A h
      have hzone := h.1.2 (.zone 8, w) (by simp)
      have hentry := h.1.2 (.entry w ((b - 7 - 512) >>> 9), i) (by simp)
      exact ⟨h.1.1, fun hz => ⟨hb, known_double A h7 hs hzone hentry (h.2 hz)⟩⟩

theorem createBlock_spec (n b : Nat) :
    Holds (contract zmap₀) n (createBlock b) (fun g _ => g.held = none) (fun _ g _ => g.held = none) := by
  refine holds_bind ((bmapCreate_spec n b).pre fun _ _ h => ⟨h, by simp⟩) fun z => ?_
  refine holds_modify (stable_any _) ?_
  rintro G t s A ⟨hnone, hz⟩
  refine ⟨trivial, G t, ?_, hnone⟩
  rw [Function.update_eq_self]
  exact acc_log A hz

theorem starts : Starts (contract zmap₀) := by
  rintro t p ⟨b, rfl⟩ G s A hrest
  have hkept : (contract zmap₀).inv (Function.update G t (G t)) s := by
    rw [Function.update_eq_self]
    exact A
  exact Holds.begins (fun n => createBlock_spec n b) hkept (fun _ => hrest) fun _ _ _ _ _ h => h

/-- **Tasks that extend one file.** Whatever `create_block` calls run, and
however they interleave, if every zone is stored into a slot that is still empty
then all calls for a block return the same zone, that zone is the one the file
has there ever after, and when no call is under way every zone these calls have
marked belongs to the file. -/
theorem create_block_agree {s : Zones} (hfirst : 0 < s.first)
    (howned : ∀ z, Owned s z → s.zmap z = true) (hret : s.returned = [])
    {c : Config Zones Tag Empty Unit} (h : kernel.Reach allow (Config.idle s) c) :
    (∀ n z, (n, z) ∈ c.shared.returned → z ≠ 0 → c.shared.bmap n = z) ∧
    (∀ n z z', (n, z) ∈ c.shared.returned → (n, z') ∈ c.shared.returned → z ≠ 0 → z' ≠ 0 → z = z') ∧
    ((∀ t, c.tasks t = .done) → c.running = none →
      ∀ z, c.shared.zmap z = true → s.zmap z = true ∨ Owned c.shared z) := by
  have A : (contract s.zmap).inv (fun _ => ⟨none, []⟩) s := by
    refine ⟨hfirst, howned, ?_, ?_, fun z hz => Or.inl hz, ?_, ?_⟩
    · intro t z h
      cases h
    · intro t t' z h
      cases h
    · intro t σ v h
      cases h
    · intro n z h
      rw [hret] at h
      cases h
  obtain ⟨G, hG⟩ := reach_idle starts A (fun _ => rfl) h
  have hmap : ∀ n z, (n, z) ∈ c.shared.returned → z ≠ 0 → c.shared.bmap n = z :=
    fun n z hm hz => (hG.inv.returned n z hm hz).2
  refine ⟨hmap, ?_, ?_⟩
  · intro n z z' hm hm' hz hz'
    rw [← hmap n z hm hz, ← hmap n z' hm' hz']
  · intro hdone hrun z hz
    rcases hG.inv.taken z hz with hold | hown | ⟨t, hheld⟩
    · exact Or.inl hold
    · exact Or.inr hown
    · -- a task without a program has no zone in hand
      have hnone : (G t).held = none := hG.rest hrun (hdone t)
      rw [hnone] at hheld
      cases hheld

/-- An empty file on a device with zones 10 to 19, all free. -/
def emptyFile : Zones where
  zone := fun _ => 0
  ind := fun _ _ => 0
  zmap := fun _ => false
  first := 10
  last := 20
  nzones := 20
  returned := []

theorem owned_emptyFile : ∀ z, Owned emptyFile z → emptyFile.zmap z = true := by
  rintro z ⟨hz, σ, -, hget⟩
  cases σ <;> exact absurd hget.symm hz

/-- The condition of the runs, to be evaluated. -/
def allowed : Tag → Zones → Bool
  | .take z, s => decide (z < s.nzones)
  | .store σ _, s => s.get σ == 0

theorem allow_of_allowed : ∀ x s, allowed x s = true → allow x s := by
  rintro (z | ⟨σ, z⟩) s h
  · simpa [allowed, allow] using h
  · simpa [allowed, allow] using h

/-- A call for block 0 and one for block `b`: the second starts while the first sleeps in
`getblk`, and sleeps there while the first goes on. -/
def twoCalls (b : Nat) : List (Move Zones Tag Empty Unit Unit) :=
  [.start 0 (createBlock 0).toProg, .start 1 (createBlock b).toProg,
    .wake 0, .run 9, .rest, .wake 1, .run 9, .rest, .wake 0, .run 9, .rest, .wake 1, .run 9, .rest]

theorem twoCalls_ops {b : Nat} : ∀ q ∈ programs (twoCalls b), kernel.ops q.1 q.2 := by
  rintro q (_ | ⟨_, _ | ⟨_, ⟨⟩⟩⟩)
  · exact ⟨0, rfl⟩
  · exact ⟨b, rfl⟩

/-- Calls for blocks 0 and 1, and then another one for block 1. -/
theorem create_block_agree_two :
    ∃ c, kernel.Reach allow (Config.idle emptyFile) c ∧
      c.shared.returned = [(1, 11), (1, 11), (0, 10)] ∧ c.shared.bmap 1 = 11 := by
  let script := twoCalls 1 ++ [.start 0 (createBlock 1).toProg, .wake 0, .run 9, .rest]
  have hplay : ((kernel.play allowed (fun (_ : Unit) _ => none) script
      (Config.idle emptyFile)).map fun c => c.shared.returned) =
        some [(1, 11), (1, 11), (0, 10)] := by
    decide +kernel
  have hops : ∀ q ∈ programs script, kernel.ops q.1 q.2 := by
    rintro q (_ | ⟨_, _ | ⟨_, _ | ⟨_, ⟨⟩⟩⟩⟩)
    · exact ⟨0, rfl⟩
    · exact ⟨1, rfl⟩
    · exact ⟨1, rfl⟩
  obtain ⟨c, hreach, hret⟩ := exists_reach allow_of_allowed (by simp) hops hplay
  obtain ⟨hmap, -, -⟩ := create_block_agree (by decide) owned_emptyFile rfl hreach
  exact ⟨c, hreach, hret, hmap 1 11 (by rw [hret]; simp) (by decide)⟩

/-- Both calls are for block 0: zone 10 is returned, marked and in no slot. -/
theorem create_block_lost :
    ¬ ∀ (s : Zones) (c : Config Zones Tag Empty Unit), 0 < s.first →
        (∀ z, Owned s z → s.zmap z = true) → s.returned = [] →
        kernel.Reach (fun _ _ => True) (Config.idle s) c →
        ∀ n z, (n, z) ∈ c.shared.returned → z ≠ 0 → c.shared.bmap n = z := by
  intro hclaim
  have hplay : ((kernel.play (fun _ _ => true) (fun (_ : Unit) _ => none) (twoCalls 0)
      (Config.idle emptyFile)).map fun c => (c.shared.returned, c.shared.bmap 0)) =
        some ([(0, 11), (0, 10)], 11) := by
    decide +kernel
  obtain ⟨c, hreach, hend⟩ := exists_reach (fun _ _ _ => trivial) (by simp) twoCalls_ops hplay
  obtain ⟨hret, hmap⟩ := Prod.mk.inj hend
  have h := hclaim emptyFile c (by decide) owned_emptyFile rfl hreach 0 10 (by rw [hret]; simp)
    (by decide)
  rw [hmap] at h
  cases h

end Linux011.Fs.Bmap
