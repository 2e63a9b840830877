import Linux011.Fs.LinkCount
import Linux011.Fs.Room
import Mathlib.Order.Interval.Finset.Nat

/-!
# Room for a directory entry

`add_entry` of `fs/namei.c`, on the directory entries of `LinkCount` and the zones of `ZoneMap`
together. It goes through the blocks of the directory with `create_block`, so that it may take
zones, and gives up where a block cannot be had. A block that `new_block` has just given is in
the cache; others may not be readable.

* `bmapIo_good`, `Grown` — what `create_block` leaves;
* `exists_gap` — a directory does not have all the blocks that `_bmap` could give it;
* `Roomy` — there is room for an entry;
* `addEntry_spec` — `add_entry` never panics, and succeeds exactly if there is.
-/

namespace Linux011.Fs.Creation

open Linux011.Fs.Names (Name Entry nameLen dirEntriesPerBlock)
open Linux011.Fs.LinkCount (entryAt place)
open Linux011.Fs.ZoneMap (Pos Good Free)
open Linux011.Fs.FileData (bmapIo maxBlock dataPos dataPos_valid dataPos_inj way needs Readable Marks bmapIo_create
  below_zero shift_lt mask_lt)

/-- The directory entries, the inodes and their bitmap; the zones and theirs. -/
structure State where
  links : LinkCount.State
  zones : ZoneMap.State

/-- The blocks that can be read, in a call that starts now: what the disk can read, and what
`new_block` may give. -/
def State.reads (s : State) (io : Nat → Bool) (z : Nat) : Bool :=
  z == 0 || !decide (s.zones.bit z ∈ s.zones.zmap) || io z

/-- The index blocks on the way to a block, where those that are not there yet are new. -/
def index (s : ZoneMap.State) (ok : Nat → Bool) (d b j : Nat) : Bool := ok (s.at d ((way b).getD j (.zone 0)))

/-- The first entry of a block that is free. -/
def freeIn (es : List Entry) (b : Nat) : Option Nat :=
  (List.range' (b * dirEntriesPerBlock) dirEntriesPerBlock).find? fun i => (entryAt es i).inode == 0

def State.enter (s : State) (d i : Nat) (e : Entry) : State :=
  { s with links := s.links.setEntries d (place (s.links.inode d).entries i e) }

/-- The loop of `add_entry` from block `b` on, and whether there is an entry. Nothing if it
panics, which is before the rounds are over. -/
def addLoop (ok : Nat → Bool) (d : Nat) (e : Entry) : Nat → Nat → State → Option (State × Bool)
  | 0, _, _ => none
  | rounds + 1, b, s =>
    match bmapIo s.zones d b true (index s.zones ok d b) with
    | none => none
    | some (zones, block) =>
      let s := { s with zones := zones }
      if block = 0 then some (s, false)
      else if ok block then
        match freeIn (s.links.inode d).entries b with
        | some i => some (s.enter d i e, true)
        | none => addLoop ok d e rounds (b + 1) s
      else addLoop ok d e rounds (b + 1) s

/-- `add_entry`, and the inode number that is put into the entry. -/
def State.addEntry (s : State) (ok : Nat → Bool) (d : Nat) (name : Name) (k : Nat) : Option (State × Bool) :=
  let e : Entry := ⟨k, name.take nameLen⟩
  let block := s.zones.zone d 0
  if e.name = [] ∨ block = 0 ∨ ok block = false then some (s, false)
  else
    match freeIn (s.links.inode d).entries 0 with
    | some i => some (s.enter d i e, true)
    | none => addLoop ok d e maxBlock 1 s

/-! ## Blocks that are added -/

section Zones

variable {s t : ZoneMap.State} {d b y : Nat} {ok : Nat → Bool}

/-- The accounts are in order after `_bmap`, wherever it stops. -/
theorem bmapIo_good (h : Good s) (hd : s.file d = true) {create : Bool}
    (heq : bmapIo s d b create ok = some (t, y)) : Good t := by
  unfold bmapIo at heq
  by_cases hbig : 7 + 512 + 512 * 512 ≤ b
  · rw [if_pos hbig] at heq
    cases heq
  rw [if_neg hbig] at heq
  by_cases hdirect : b < 7
  · rw [if_pos hdirect] at heq
    obtain ⟨t₁, z, hfill, hf⟩ := ZoneMap.fillZone_spec (k := b) h ⟨hd, (by omega : b < 9)⟩ create
    rw [hfill] at heq
    cases heq
    exact hf.good
  rw [if_neg hdirect] at heq
  by_cases hind : b - 7 < 512
  · rw [if_pos hind] at heq
    obtain ⟨t₁, z, hfill, hf⟩ := ZoneMap.fillZone_spec (k := 7) h ⟨hd, (by omega : 7 < 9)⟩ create
    rw [hfill] at heq
    dsimp only at heq
    split_ifs at heq with hz hok
    · cases heq
      exact hf.good
    · cases heq
      exact hf.good
    · have hat := hf.zone hz
      obtain ⟨t₂, y₂, hfill₂, hf₂⟩ := ZoneMap.fillEntry_spec (p := .entry (b - 7)) hf.good
        ⟨(hf.file d).trans hd, hind⟩ rfl (hat.trans_ne hz) create
      rw [hat] at hfill₂
      rw [hfill₂] at heq
      cases heq
      exact hf₂.good
  · rw [if_neg hind] at heq
    dsimp only at heq
    obtain ⟨t₁, z, hfill, hf⟩ := ZoneMap.fillZone_spec (k := 8) h ⟨hd, (by omega : 8 < 9)⟩ create
    rw [hfill] at heq
    dsimp only at heq
    have hb : b < maxBlock := Nat.lt_of_not_le hbig
    by_cases hz : z = 0
    · rw [if_pos hz] at heq
      cases heq
      exact hf.good
    rw [if_neg hz] at heq
    by_cases hok : ok 0 = false
    · rw [if_pos hok] at heq
      cases heq
      exact hf.good
    have hat := hf.zone hz
    have hd₁ : t₁.file d = true := (hf.file d).trans hd
    obtain ⟨t₂, i, hfill₂, hf₂⟩ := ZoneMap.fillEntry_spec (p := .mid ((b - 7 - 512) >>> 9)) hf.good
      ⟨hd₁, shift_lt hb⟩ rfl (hat.trans_ne hz) create
    rw [hat] at hfill₂
    rw [if_neg hok, hfill₂] at heq
    dsimp only at heq
    split_ifs at heq with hi hok'
    · cases heq
      exact hf₂.good
    · cases heq
      exact hf₂.good
    · have hat₂ := hf₂.zone hi
      obtain ⟨t₃, y₃, hfill₃, hf₃⟩ :=
        ZoneMap.fillEntry_spec (p := .leaf ((b - 7 - 512) >>> 9) ((b - 7 - 512) &&& 511)) hf₂.good
          ⟨(hf₂.file d).trans hd₁, shift_lt hb, mask_lt _⟩ rfl (hat₂.trans_ne hi) create
      rw [hat₂] at hfill₃
      rw [hfill₃] at heq
      cases heq
      exact hf₃.good

/-- Directory `d` may have got blocks; the accounts are in order. -/
structure Grown (s t : ZoneMap.State) (d : Nat) : Prop where
  good   : Good t
  marks  : Marks s t
  mode   : ∀ m, (t.inode m).mode = (s.inode m).mode
  others : ∀ m q, s.Has m q → m ≠ d → t.at m q = s.at m q
  kept   : ∀ q, s.Has d q → s.at d q ≠ 0 → t.at d q = s.at d q

theorem Grown.refl (h : Good s) (d : Nat) : Grown s s d :=
  ⟨h, .refl s, fun _ => rfl, fun _ _ _ _ => rfl, fun _ _ _ => rfl⟩

/-- Nothing is missing on the way to a block that is there. -/
theorem needs_there (hne : s.at d (dataPos b) ≠ 0) : needs s d (way b) = 0 := by
  refine List.countP_eq_zero.mpr fun q hq h₀ => hne ?_
  replace h₀ : s.at d q = 0 := by simpa using h₀
  unfold way at hq
  unfold dataPos
  split_ifs at hq ⊢ with hdirect hind
  · rw [List.mem_singleton] at hq
    exact hq ▸ h₀
  · rw [List.mem_cons, List.mem_singleton] at hq
    rcases hq with rfl | rfl
    · exact below_zero rfl h₀
    · exact h₀
  · rw [List.mem_cons, List.mem_cons, List.mem_singleton] at hq
    rcases hq with rfl | rfl | rfl
    · exact below_zero rfl (below_zero (p := .mid _) rfl h₀)
    · exact below_zero rfl h₀
    · exact h₀

/-- `create_block`: the block that is there; else a new one, if as many zones are left as
it takes. -/
theorem createBlock_spec (h : Good s) (hd : s.file d = true) (hb : b < maxBlock) (ok : Nat → Bool) :
    ∃ t y, bmapIo s d b true ok = some (t, y) ∧ Grown s t d ∧
      (y ≠ 0 ↔ Readable b ok ∧ needs s d (way b) ≤ FileData.room s) ∧
      (s.at d (dataPos b) ≠ 0 → t = s ∧ (y ≠ 0 → y = s.at d (dataPos b))) ∧
      (s.at d (dataPos b) = 0 → y ≠ 0 → Free s y) := by
  obtain ⟨t, y, heq, hr⟩ := bmapIo_create h.fair hd hb ok
  have hgrown : Grown s t d := by
    refine ⟨bmapIo_good h hd heq, hr.marks, hr.mode, fun m q hq hm => ?_, hr.kept⟩
    exact hr.others m q hq fun heq => absurd heq hm
  have hgiven : y ≠ 0 ↔ Readable b ok ∧ needs s d (way b) ≤ FileData.room s := by
    rw [Ne, hr.full]
    constructor
    · intro hnot
      exact ⟨by_contra fun hrd => hnot (Or.inl hrd), Nat.le_of_not_lt fun hlt => hnot (Or.inr hlt)⟩
    · rintro ⟨hrd, hle⟩ (hnrd | hlt)
      · exact hnrd hrd
      · omega
  refine ⟨t, y, heq, hgrown, hgiven, fun hne => ⟨hr.same hne, fun hy => ?_⟩, fun h₀ hy => (hr.fresh h₀ hy).1⟩
  have hdata := hr.data (hgiven.mp hy).1
  rw [hr.same hne] at hdata
  exact hdata.symm

/-- There are more blocks than zones. -/
theorem exists_gap (h : Good s) (hd : s.file d = true) (hsmall : s.nzones < 65536) :
    ∃ b, 1 ≤ b ∧ b < maxBlock ∧ s.at d (dataPos b) = 0 := by
  by_contra hnone
  have hfull : ∀ b, b ∈ Finset.Ico 1 maxBlock → s.at d (dataPos b) ≠ 0 := by
    intro b hb h₀
    rw [Finset.mem_Ico] at hb
    exact hnone ⟨b, hb.1, hb.2, h₀⟩
  have hhas : ∀ b, b ∈ Finset.Ico 1 maxBlock → s.Has d (dataPos b) := by
    intro b hb
    exact ⟨hd, dataPos_valid (Finset.mem_Ico.mp hb).2⟩
  have hcard := Finset.card_le_card_of_injOn (s := Finset.Ico 1 maxBlock) (t := Finset.range s.nzones)
    (fun b => s.at d (dataPos b))
    (fun b hb => Finset.mem_coe.mpr (Finset.mem_range.mpr (h.range d _ (hhas b hb) (hfull b hb)).2))
    (fun b hb c hc heq => dataPos_inj (h.once d _ d _ (hhas b hb) (hhas c hc) (hfull b hb) heq).2)
  rw [Nat.card_Ico, Finset.card_range] at hcard
  unfold maxBlock at hcard
  omega

end Zones

/-! ## The loop -/

variable {s t : State} {ok : Nat → Bool} {d b : Nat}

/-- A block of the directory: it is there, it can be got at, and it can be read and has an
entry that is free. -/
def State.there (s : State) (d b : Nat) : Prop := s.zones.at d (dataPos b) ≠ 0

def State.near (s : State) (ok : Nat → Bool) (d b : Nat) : Prop := Readable b (index s.zones ok d b)

def State.opens (s : State) (ok : Nat → Bool) (d b : Nat) : Prop :=
  ok (s.zones.at d (dataPos b)) = true ∧ freeIn (s.links.inode d).entries b ≠ none

/-- From block `b` on there is one with an entry that is free, or one that could be made with
the zones that are left, and all the blocks before it are there. -/
def State.RoomFrom (s : State) (ok : Nat → Bool) (d left b : Nat) : Prop :=
  ∃ c, b ≤ c ∧ c < maxBlock ∧ (∀ a, b ≤ a → a < c → s.there d a ∧ s.near ok d a) ∧ s.near ok d c ∧
    needs s.zones d (way c) ≤ left ∧ (s.there d c → s.opens ok d c)

/-- There is room for an entry in the directory. -/
def State.Roomy (s : State) (ok : Nat → Bool) (d left : Nat) : Prop :=
  s.zones.zone d 0 ≠ 0 ∧ ok (s.zones.zone d 0) = true ∧ s.RoomFrom ok d left 0

/-- The first block decides, or the others do. -/
theorem roomFrom_iff {left : Nat} (hb : b < maxBlock) : s.RoomFrom ok d left b ↔
    s.near ok d b ∧ needs s.zones d (way b) ≤ left ∧
      (s.there d b → s.opens ok d b ∨ s.RoomFrom ok d left (b + 1)) := by
  constructor
  · rintro ⟨c, hbc, hc, hbefore, hnear, hneeds, hopens⟩
    by_cases heq : b = c
    · subst heq
      exact ⟨hnear, hneeds, fun hthere => Or.inl (hopens hthere)⟩
    · obtain ⟨hthere, hnear'⟩ := hbefore b le_rfl (by omega)
      refine ⟨hnear', ?_, fun _ => Or.inr ?_⟩
      · rw [needs_there hthere]
        exact Nat.zero_le left
      · exact ⟨c, by omega, hc, fun a ha hac => hbefore a (by omega) hac, hnear, hneeds, hopens⟩
  · rintro ⟨hnear, hneeds, hrest⟩
    by_cases hfirst : s.there d b → s.opens ok d b
    · exact ⟨b, le_rfl, hb, fun a ha hab => absurd hab (by omega), hnear, hneeds, hfirst⟩
    · rw [Classical.not_imp] at hfirst
      obtain ⟨hthere, hclosed⟩ := hfirst
      obtain ⟨c, hbc, hc, hbefore, hlast⟩ := (hrest hthere).resolve_left hclosed
      refine ⟨c, by omega, hc, fun a ha hac => ?_, hlast⟩
      by_cases heq : a = b
      · rw [heq]
        exact ⟨hthere, hnear⟩
      · exact hbefore a (by omega) hac

/-- What `add_entry` needs: the zones are in order, fewer than a directory could have blocks,
the blocks that are free count as read, and the directory has no entry where it has no block. -/
structure Ready (s : State) (ok : Nat → Bool) (d : Nat) : Prop where
  good  : Good s.zones
  dir   : s.zones.file d = true
  small : s.zones.nzones < 65536
  ok    : ∀ z, Free s.zones z → ok z = true
  holes : ∀ i, (s.links.entry d i).inode ≠ 0 → s.there d (i / dirEntriesPerBlock)

/-- What `add_entry` leaves: `r` tells if the entry is there. -/
structure Added (s t : State) (d : Nat) (e : Entry) (r : Bool) : Prop where
  grown  : Grown s.zones t.zones d
  failed : r = false → t.links = s.links
  placed : r = true → ∃ i, (s.links.entry d i).inode = 0 ∧
    t.links = s.links.setEntries d (place (s.links.inode d).entries i e)

theorem freeIn_some {es : List Entry} {i : Nat} (h : freeIn es b = some i) :
    (entryAt es i).inode = 0 ∧ i / dirEntriesPerBlock = b := by
  unfold freeIn at h
  refine ⟨by simpa using List.find?_some h, ?_⟩
  have hmem := List.mem_of_find?_eq_some h
  rw [List.mem_range'_1] at hmem
  unfold dirEntriesPerBlock at hmem ⊢
  omega

/-- A block that the directory does not have has no entry. -/
theorem Ready.freeIn_hole (h : Ready s ok d) (hgone : ¬ s.there d b) : freeIn (s.links.inode d).entries b ≠ none := by
  intro hnone
  unfold freeIn at hnone
  have hused := List.find?_eq_none.mp hnone (b * dirEntriesPerBlock)
    (List.mem_range'_1.mpr ⟨le_rfl, by unfold dirEntriesPerBlock; omega⟩)
  refine hgone ?_
  rw [beq_iff_eq] at hused
  have hthere := h.holes (b * dirEntriesPerBlock) hused
  rw [Nat.mul_div_cancel _ (by decide : 0 < dirEntriesPerBlock)] at hthere
  exact hthere

/-- The loop ends before there is no block left to ask for. -/
theorem addLoop_spec (h : Ready s ok d) (e : Entry) (rounds : Nat) (hrounds : maxBlock ≤ b + rounds)
    (hgap : ∃ c, b ≤ c ∧ c < maxBlock ∧ s.zones.at d (dataPos c) = 0) :
    ∃ t r, addLoop ok d e rounds b s = some (t, r) ∧ Added s t d e r ∧
      (r = true ↔ s.RoomFrom ok d (FileData.room s.zones) b) := by
  induction rounds generalizing b with
  | zero =>
    obtain ⟨c, hbc, hc, -⟩ := hgap
    omega
  | succ rounds ih =>
    obtain ⟨c, hbc, hc, hc₀⟩ := hgap
    have hb : b < maxBlock := by omega
    obtain ⟨zones, block, heq, hgrown, hgiven, hsame, hfresh⟩ :=
      createBlock_spec h.good h.dir hb (index s.zones ok d b)
    unfold addLoop
    rw [heq, roomFrom_iff hb]
    dsimp only
    have hroom : block ≠ 0 ↔ s.near ok d b ∧ needs s.zones d (way b) ≤ FileData.room s.zones := hgiven
    by_cases hblock : block = 0
    · rw [if_pos hblock]
      refine ⟨_, _, rfl, ⟨hgrown, fun _ => rfl, fun hr => by cases hr⟩, ?_⟩
      constructor
      · intro hr
        cases hr
      · rintro ⟨hnear, hneeds, -⟩
        exact absurd hblock (hroom.mpr ⟨hnear, hneeds⟩)
    rw [if_neg hblock]
    obtain ⟨hnear, hneeds⟩ := hroom.mp hblock
    by_cases hthere : s.there d b
    · -- nothing was taken
      obtain ⟨rfl, hdata⟩ := hsame hthere
      have hbc' : b ≠ c := fun heq => hthere (heq ▸ hc₀)
      obtain ⟨t, r, hloop, hadded, hr⟩ := ih (b := b + 1) (by omega) ⟨c, by omega, hc, hc₀⟩
      have hopens : s.opens ok d b ↔ ok block = true ∧ freeIn (s.links.inode d).entries b ≠ none := by
        rw [hdata hblock]
        exact Iff.rfl
      have hnext : ¬ s.opens ok d b → (r = true ↔ s.near ok d b ∧ needs s.zones d (way b) ≤ FileData.room s.zones ∧
          (s.there d b → s.opens ok d b ∨ s.RoomFrom ok d (FileData.room s.zones) (b + 1))) := by
        intro hclosed
        rw [hr]
        exact ⟨fun hlater => ⟨hnear, hneeds, fun _ => Or.inr hlater⟩,
          fun hall => (hall.2.2 hthere).resolve_left hclosed⟩
      by_cases hok : ok block = true
      · rw [if_pos hok]
        cases hfree : freeIn (s.links.inode d).entries b with
        | none => exact ⟨t, r, hloop, hadded, hnext fun hopen => (hopens.mp hopen).2 hfree⟩
        | some i =>
          refine ⟨_, _, rfl, ⟨hgrown, (fun hr => by cases hr), fun _ => ⟨i, (freeIn_some hfree).1, rfl⟩⟩, ?_⟩
          refine iff_of_true rfl ⟨hnear, hneeds, fun _ => Or.inl (hopens.mpr ⟨hok, ?_⟩)⟩
          rw [hfree]
          exact Option.some_ne_none i
      · rw [if_neg hok]
        exact ⟨t, r, hloop, hadded, hnext fun hopen => hok (hopens.mp hopen).1⟩
    · -- the block is new
      have hok : ok block = true := h.ok block (hfresh (Classical.not_not.mp hthere) hblock)
      rw [if_pos hok]
      cases hfree : freeIn (s.links.inode d).entries b with
      | none => exact absurd hfree (h.freeIn_hole hthere)
      | some i =>
        refine ⟨_, _, rfl, ⟨hgrown, (fun hr => by cases hr), fun _ => ⟨i, (freeIn_some hfree).1, rfl⟩⟩, ?_⟩
        exact iff_of_true rfl ⟨hnear, hneeds, fun hthere' => absurd hthere' hthere⟩

/-- **`add_entry`** does not panic. It adds the entry exactly if there is room for it, and else
leaves all entries as they were. -/
theorem addEntry_spec (h : Ready s ok d) {name : Name} (hname : name ≠ []) (k : Nat) :
    ∃ t r, s.addEntry ok d name k = some (t, r) ∧ Added s t d ⟨k, name.take nameLen⟩ r ∧
      (r = true ↔ s.Roomy ok d (FileData.room s.zones)) := by
  have hshort : name.take nameLen ≠ [] := by
    intro hnil
    rcases List.take_eq_nil_iff.mp hnil with hzero | hempty
    · cases hzero
    · exact hname hempty
  unfold State.addEntry
  dsimp only
  by_cases hbad : name.take nameLen = [] ∨ s.zones.zone d 0 = 0 ∨ ok (s.zones.zone d 0) = false
  · rw [if_pos hbad]
    refine ⟨_, _, rfl, ⟨.refl h.good d, fun _ => rfl, fun hr => by cases hr⟩, ?_⟩
    refine iff_of_false Bool.false_ne_true fun hroomy => ?_
    obtain ⟨hthere, hok, -⟩ := hroomy
    rcases hbad with hnil | hzero | hnok
    · exact hshort hnil
    · exact hthere hzero
    · rw [hok] at hnok
      cases hnok
  rw [if_neg hbad]
  rw [not_or, not_or] at hbad
  obtain ⟨-, hthere, hok⟩ := hbad
  replace hok : ok (s.zones.zone d 0) = true := by simpa using hok
  have hthere' : s.there d 0 := hthere
  have hnear : s.near ok d 0 := ⟨fun hle => absurd hle (by decide), fun hle => absurd hle (by decide)⟩
  have hroomy : s.Roomy ok d (FileData.room s.zones) ↔
      freeIn (s.links.inode d).entries 0 ≠ none ∨ s.RoomFrom ok d (FileData.room s.zones) 1 := by
    unfold State.Roomy
    rw [roomFrom_iff (by decide), needs_there hthere']
    constructor
    · rintro ⟨-, -, -, -, hrest⟩
      exact (hrest hthere').imp_left fun hopens => hopens.2
    · intro hrest
      exact ⟨hthere, hok, hnear, Nat.zero_le _, fun _ => hrest.imp_left fun hfree => ⟨hok, hfree⟩⟩
  rw [hroomy]
  cases hfree : freeIn (s.links.inode d).entries 0 with
  | some i =>
    refine ⟨_, _, rfl, ⟨.refl h.good d, (fun hr => by cases hr), fun _ => ⟨i, (freeIn_some hfree).1, rfl⟩⟩, ?_⟩
    exact iff_of_true rfl (Or.inl (Option.some_ne_none i))
  | none =>
    obtain ⟨c, hc, hlast, h₀⟩ := exists_gap h.good h.dir h.small
    obtain ⟨t, r, hloop, hadded, hr⟩ := addLoop_spec h ⟨k, name.take nameLen⟩ maxBlock (b := 1)
      (Nat.le_add_left ..) ⟨c, hc, hlast, h₀⟩
    refine ⟨t, r, hloop, hadded, hr.trans ⟨Or.inr, fun hor => hor.resolve_left fun hne => hne rfl⟩⟩

end Linux011.Fs.Creation
