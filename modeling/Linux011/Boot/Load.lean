import Linux011.Boot.Build
import Linux011.Lib.Region

/-!
# From the floppy to address 0

The boot block moves itself out of the way and loads the setup code and the system behind
it. The system is read a track at a time, or what is left of the 64 kB segment that is
being filled: the floppy controller cannot cross its end. The setup code then moves the
system down to address 0.

* `Loaded` — the sectors read so far, and where the next ones are and go;
* `step_loaded` — a round of `rp_read`;
* `bootsect_loads`, `doMove_eq` — the two programs;
* `boot_system` — what `tools/build` was given is where the kernel and `main` look for it.
-/

namespace Linux011.Boot

open Linux011.Lib.Region

abbrev Mem := Nat → Byte

def setupLen : Nat := 4
def sysSeg : Nat := 0x1000
def endSeg : Nat := sysSeg + 0x3000

/-- The floppy, in the order of its tracks, heads and sectors, and the drive. `bad` is what
the failed attempts at a read leave behind. -/
structure Bios where
  disk    : Nat → Byte
  sectors : Nat
  bad     : Nat → List (Nat → Byte)

/-- `int 0x13`, service 2, until it succeeds. Nothing if it never does: not all of the
sectors are on the track, or the transfer crosses the end of a 64 kB segment. -/
def Bios.read (b : Bios) (n : Nat) (m : Mem) (track head sector count addr : Nat) : Option Mem :=
  if 0 < count ∧ 0 < sector ∧ sector - 1 + count ≤ b.sectors ∧ addr % 65536 + 512 * count ≤ 65536 then
    let first := (track * 2 + head) * b.sectors + (sector - 1)
    some (fill ((b.bad n).foldl (fill · addr (512 * count)) m) addr (512 * count) fun i => b.disk (512 * first + i))
  else none

/-- `es`, `bx`, `sread`, `head` and `track`, and the number of reads. -/
structure State where
  es    : Nat
  bx    : Nat
  sread : Nat
  head  : Nat
  track : Nat
  reads : Nat
  mem   : Mem

/-- `read_track`: `ax` sectors. -/
def readTrack (b : Bios) (s : State) (ax : Nat) : Option State :=
  (b.read s.reads s.mem (s.track % 256) (s.head % 2) ((s.sread + 1) % 256) (ax % 256) (s.es * 16 + s.bx)).map
    fun mem => { s with mem := mem, reads := s.reads + 1 }

/-- From `ok1_read` to `ok2_read`: the rest of the track, or of the segment. -/
def sectorsToRead (b : Bios) (s : State) : Nat :=
  let ax := (b.sectors + 65536 - s.sread) % 65536
  let cx := ax * 512 % 65536 + s.bx
  if cx < 65536 ∨ cx % 65536 = 0 then ax else (65536 - s.bx) % 65536 / 512

/-- From `ok2_read` to `ok3_read`: the position on the disk. -/
def nextSector (b : Bios) (s : State) (ax : Nat) : State :=
  let ax := (ax + s.sread) % 65536
  if ax ≠ b.sectors then { s with sread := ax }
  else if s.head = 1 then { s with sread := 0, head := 0, track := (s.track + 1) % 65536 }
  else { s with sread := 0, head := (1 + 65536 - s.head) % 65536 }

/-- From `ok3_read` to `rp_read`: the address. -/
def nextAddress (s : State) (cx : Nat) : State :=
  if s.bx + cx < 65536 then { s with bx := s.bx + cx } else { s with es := (s.es + 0x1000) % 65536, bx := 0 }

def step (b : Bios) (s : State) : Option State :=
  (readTrack b s (sectorsToRead b s)).map fun s' =>
    nextAddress (nextSector b s' (sectorsToRead b s)) (sectorsToRead b s * 512 % 65536)

/-- `rp_read`. -/
def rpRead (b : Bios) : Nat → State → Option State
  | 0, _ => none
  | n + 1, s => if s.es < endSeg then (step b s).bind (rpRead b n) else some s

/-- `read_it`. -/
def readIt (b : Bios) (n : Nat) (s : State) : Option State :=
  if s.es % 0x1000 ≠ 0 then none else rpRead b n { s with bx := 0 }

/-- `root_dev`, or what the number of sectors tells. -/
def rootDev (b : Bios) (m : Mem) : Option Mem :=
  if m 0x901FD ++ m 0x901FC ≠ 0#16 then some m
  else if b.sectors = 15 then some (Function.update (Function.update m 0x901FC 0x08) 0x901FD 0x02)
  else if b.sectors = 18 then some (Function.update (Function.update m 0x901FC 0x1c) 0x901FD 0x02)
  else none

/-- `bootsect.s`, which the BIOS has put at `0x7c00`. -/
def bootsect (b : Bios) (n : Nat) (m : Mem) : Option Mem :=
  let m := copyWords (fill m 0x7c00 512 b.disk) 0x90000 0x7c00 256
  (b.read 0 m 0 0 2 setupLen 0x90200).bind fun m =>
    (readIt b n ⟨sysSeg, 0, 1 + setupLen, 0, 0, 1, m⟩).bind fun s => rootDev b s.mem

/-- `do_move` of `setup.s`. -/
def doMove : Nat → Nat → Mem → Option Mem
  | 0, _, _ => none
  | n + 1, ax, m =>
    if ax + 0x1000 = 0x9000 then some m
    else doMove n (ax + 0x1000) (copyWords m (ax * 16) ((ax + 0x1000) * 16) 0x8000)

variable {b : Bios} {m : Mem} {s : State} {n k : Nat}

/-! ## Reading the system -/

theorem bad_fill (l : List (Nat → Byte)) (m : Mem) (start len : Nat) (data : Nat → Byte) :
    fill (l.foldl (fill · start len) m) start len data = fill m start len data := by
  induction l generalizing m with
  | nil => rfl
  | cons g l ih => rw [List.foldl_cons, ih, fill_fill]

/-- After a read that can succeed, its failed attempts are not seen. -/
theorem read_eq {track head sector count addr : Nat} (h₀ : 0 < count) (h₁ : 0 < sector)
    (h₂ : sector - 1 + count ≤ b.sectors) (h₃ : addr % 65536 + 512 * count ≤ 65536) :
    b.read n m track head sector count addr = some (fill m addr (512 * count)
      fun i => b.disk (512 * ((track * 2 + head) * b.sectors + (sector - 1)) + i)) := by
  unfold Bios.read
  rw [if_pos ⟨h₀, h₁, h₂, h₃⟩]
  dsimp only
  rw [bad_fill]

/-- The first `k` sectors of the system have been read. -/
structure Loaded (b : Bios) (m : Mem) (k : Nat) (s : State) : Prop where
  segment : s.es % 0x1000 = 0
  offset  : s.bx % 512 = 0
  offsetL : s.bx < 65536
  place   : s.es * 16 + s.bx = sysSeg * 16 + 512 * k
  disk    : (s.track * 2 + s.head) * b.sectors + s.sread = 1 + setupLen + k
  sread   : s.sread < b.sectors
  head    : s.head < 2
  mem     : s.mem = fill m (sysSeg * 16) (512 * k) fun i => b.disk (512 * (1 + setupLen) + i)

/-- What is read next is on the track and fits into the segment. -/
theorem sectorsToRead_spec (hb : b.sectors ≤ 63) (h : Loaded b m k s) : 0 < sectorsToRead b s ∧
    s.sread + sectorsToRead b s ≤ b.sectors ∧ s.bx + 512 * sectorsToRead b s ≤ 65536 := by
  have hoff := h.offset
  have hlt := h.offsetL
  have hsread := h.sread
  unfold sectorsToRead
  dsimp only
  split_ifs <;> omega

theorem track_lt (h : Loaded b m k s) (hk : k < 384) : s.track < 256 := by
  have hdisk := h.disk
  have hle : s.track * 2 + s.head ≤ (s.track * 2 + s.head) * b.sectors :=
    Nat.le_mul_of_pos_right _ (Nat.zero_lt_of_lt h.sread)
  unfold setupLen at hdisk
  omega

theorem readTrack_loaded (hb : b.sectors ≤ 63) (h : Loaded b m k s) (hk : k < 384) :
    readTrack b s (sectorsToRead b s) = some { s with
      reads := s.reads + 1
      mem := fill m (sysSeg * 16) (512 * (k + sectorsToRead b s)) fun i => b.disk (512 * (1 + setupLen) + i) } := by
  have hsmall := track_lt h hk
  obtain ⟨hpos, htrack, hfit⟩ := sectorsToRead_spec hb h
  obtain ⟨hseg, hoff, hlt, hplace, hdisk, hsread, hhead, hmem⟩ := h
  generalize sectorsToRead b s = ax at hpos htrack hfit ⊢
  unfold sysSeg setupLen at *
  have haddr : (s.es * 16 + s.bx) % 65536 = s.bx := by omega
  have hfirst : (s.track * 2 + s.head) * b.sectors + (s.sread + 1 - 1) = 1 + 4 + k := by omega
  have hnext : (fun i => b.disk (512 * (1 + 4 + k) + i)) = fun i => b.disk (512 * (1 + 4) + (512 * k + i)) :=
    funext fun i => congrArg b.disk (by omega)
  unfold readTrack
  rw [Nat.mod_eq_of_lt hsmall, Nat.mod_eq_of_lt hhead, Nat.mod_eq_of_lt (by omega : s.sread + 1 < 256),
    Nat.mod_eq_of_lt (by omega : ax < 256),
    read_eq hpos (Nat.succ_pos s.sread) (by omega) (by rw [haddr]; exact hfit), Option.map_some, hfirst, hmem, hplace,
    hnext, fill_append, Nat.mul_add 512 k ax]

theorem nextSector_spec (hb : b.sectors ≤ 63) (hhead : s.head < 2) {ax : Nat} (hax : s.sread + ax ≤ b.sectors)
    (hpos : 0 < b.sectors) (htrack : s.track < 256) : ∃ sread head track,
    nextSector b s ax = { s with sread := sread, head := head, track := track } ∧ sread < b.sectors ∧ head < 2 ∧
    (track * 2 + head) * b.sectors + sread = (s.track * 2 + s.head) * b.sectors + s.sread + ax := by
  have hq := Nat.succ_mul (s.track * 2 + s.head) b.sectors
  have hmod : (ax + s.sread) % 65536 = ax + s.sread := Nat.mod_eq_of_lt (by omega)
  unfold nextSector
  dsimp only
  rw [hmod]
  split_ifs with hfull hlast
  · exact ⟨ax + s.sread, s.head, s.track, rfl, by omega, hhead, by omega⟩
  · refine ⟨0, 0, (s.track + 1) % 65536, rfl, hpos, by omega, ?_⟩
    have htwo : (s.track + 1) % 65536 * 2 + 0 = (s.track * 2 + s.head).succ := by omega
    rw [htwo]
    omega
  · refine ⟨0, (1 + 65536 - s.head) % 65536, s.track, rfl, hpos, by omega, ?_⟩
    have htwo : s.track * 2 + (1 + 65536 - s.head) % 65536 = (s.track * 2 + s.head).succ := by omega
    rw [htwo]
    omega

theorem nextAddress_spec (hes : s.es < endSeg) (hseg : s.es % 0x1000 = 0) (hoff : s.bx % 512 = 0) {ax : Nat}
    (hfit : s.bx + 512 * ax ≤ 65536) : ∃ es bx,
    nextAddress s (512 * ax) = { s with es := es, bx := bx } ∧ es % 0x1000 = 0 ∧ bx % 512 = 0 ∧ bx < 65536 ∧
    es * 16 + bx = s.es * 16 + s.bx + 512 * ax := by
  unfold nextAddress endSeg sysSeg at *
  split_ifs with hno
  · exact ⟨s.es, s.bx + 512 * ax, rfl, hseg, by omega, hno, by omega⟩
  · exact ⟨(s.es + 0x1000) % 65536, 0, rfl, by omega, rfl, by decide, by omega⟩

/-- A round reads at least one sector. -/
theorem step_loaded (hb : b.sectors ≤ 63) (h : Loaded b m k s) (hes : s.es < endSeg) :
    ∃ s' c, step b s = some s' ∧ 0 < c ∧ k + c ≤ 384 ∧ Loaded b m (k + c) s' := by
  have hstart := h.place
  have hsegment := h.segment
  have hoffset := h.offsetL
  have hk : k < 384 := by
    unfold endSeg sysSeg at *
    omega
  have htrack := track_lt h hk
  have hread := readTrack_loaded hb h hk
  obtain ⟨hpos, hrest, hfit⟩ := sectorsToRead_spec hb h
  have hcx : sectorsToRead b s * 512 % 65536 = 512 * sectorsToRead b s := by omega
  unfold step
  rw [hread, Option.map_some, hcx]
  generalize sectorsToRead b s = ax at hpos hrest hfit ⊢
  generalize hmem : fill m (sysSeg * 16) (512 * (k + ax)) (fun i => b.disk (512 * (1 + setupLen) + i)) = mem
  obtain ⟨sread, head, track, hsector, hsread, hhead, hdisk⟩ :=
    nextSector_spec (s := { s with reads := s.reads + 1, mem := mem }) hb h.head hrest
      (Nat.zero_lt_of_lt h.sread) htrack
  rw [hsector]
  obtain ⟨es, bx, haddress, hseg, hoff, hlt, hplace⟩ := nextAddress_spec
    (s := { s with reads := s.reads + 1, mem := mem, sread := sread, head := head, track := track })
    hes h.segment h.offset hfit
  rw [haddress]
  refine ⟨_, ax, rfl, hpos, ?_, hseg, hoff, hlt, ?_, ?_, hsread, hhead, hmem.symm⟩
  · unfold endSeg sysSeg at *
    omega
  · show es * 16 + bx = sysSeg * 16 + 512 * (k + ax)
    dsimp only at hplace
    omega
  · show (track * 2 + head) * b.sectors + sread = 1 + setupLen + (k + ax)
    have hstart := h.disk
    dsimp only at hdisk
    omega

/-- The loop ends with the whole system in memory. -/
theorem rpRead_loaded (hb : b.sectors ≤ 63) (h : Loaded b m k s) (hk : k ≤ 384) (hn : 384 - k < n) :
    ∃ s', rpRead b n s = some s' ∧ Loaded b m 384 s' := by
  induction n generalizing s k with
  | zero => omega
  | succ n ih =>
    have hplace := h.place
    have hseg := h.segment
    have hlt := h.offsetL
    unfold rpRead
    by_cases hes : s.es < endSeg
    · obtain ⟨s', c, hstep, hpos, hle, hnext⟩ := step_loaded hb h hes
      rw [if_pos hes, hstep, Option.bind_some]
      exact ih hnext hle (by omega)
    · have hend : k = 384 := by
        unfold endSeg sysSeg at *
        omega
      rw [if_neg hes]
      exact ⟨s, rfl, hend ▸ h⟩

/-! ## The boot block -/

/-- What `bootsect` has loaded, before the root device is looked at. -/
structure Started (b : Bios) (m : Mem) : Prop where
  block  : ∀ i < 512, m (0x90000 + i) = b.disk i
  setup  : ∀ i < 512 * setupLen, m (0x90200 + i) = b.disk (512 + i)
  system : ∀ i < 0x30000, m (sysSeg * 16 + i) = b.disk (512 * (1 + setupLen) + i)

theorem bootsect_loads (hb : 5 < b.sectors) (hb' : b.sectors ≤ 63) (hn : 384 < n) (m : Mem) :
    ∃ m', bootsect b n m = rootDev b m' ∧ Started b m' := by
  unfold bootsect
  dsimp only
  rw [copyWords_eq (Or.inr (by decide)), read_eq (by decide) (by decide) (by unfold setupLen; omega) (by decide),
    Option.bind_some]
  generalize hm₁ : fill (fill m 0x7c00 512 b.disk) 0x90000 (2 * 256) _ = m₁
  generalize hm₂ : fill m₁ 0x90200 (512 * setupLen) _ = m₂
  have hfirst : Loaded b m₂ 0 ⟨sysSeg, 0, 1 + setupLen, 0, 0, 1, m₂⟩ :=
    ⟨by simp [sysSeg], rfl, Nat.zero_lt_succ _, rfl, by simp, hb, Nat.zero_lt_succ _, fill_zero.symm⟩
  obtain ⟨s', hrun, hloaded⟩ := rpRead_loaded hb' hfirst (by decide) hn
  have hread : readIt b n ⟨sysSeg, 0, 1 + setupLen, 0, 0, 1, m₂⟩ = some s' := by
    unfold readIt
    rw [if_neg (not_not.mpr hfirst.segment)]
    exact hrun
  rw [hread, Option.bind_some]
  refine ⟨s'.mem, rfl, ?_, ?_, ?_⟩
  · intro i hi
    rw [hloaded.mem, fill_outside (Or.inr (by unfold sysSeg; omega)), ← hm₂,
      fill_outside (Or.inl (by omega)), ← hm₁, fill_at (by omega) (by omega), fill_at (by omega) (by omega)]
    exact congrArg b.disk (by omega)
  · intro i hi
    rw [hloaded.mem, fill_outside (Or.inr (by unfold sysSeg; omega)), ← hm₂, fill_at (by omega) (by omega)]
    exact congrArg b.disk (by omega)
  · intro i hi
    rw [hloaded.mem, fill_at (by omega) (by omega)]
    exact congrArg b.disk (by omega)

/-! ## Moving the system -/

theorem doMove_eq (j : Nat) (hj : j ≤ 8) (hn : 8 - j < n) (m : Mem) : doMove n (0x1000 * j) m =
    some (fill m (0x10000 * j) (0x80000 - 0x10000 * j) fun i => m (0x10000 * j + 0x10000 + i)) := by
  induction n generalizing j m with
  | zero => omega
  | succ n ih =>
    unfold doMove
    by_cases hlast : j = 8
    · subst hlast
      rw [if_pos rfl]
      exact congrArg some fill_zero.symm
    · rw [if_neg (by omega), copyWords_eq (Or.inl (by omega)), show 0x1000 * j + 0x1000 = 0x1000 * (j + 1) by omega,
        ih (j + 1) (by omega) (by omega)]
      have hrest : (fun i => fill m (0x1000 * j * 16) (2 * 0x8000) (fun i => m (0x1000 * (j + 1) * 16 + i))
          (0x10000 * (j + 1) + 0x10000 + i)) = fun i => m (0x10000 * j + 0x10000 + (0x10000 + i)) :=
        funext fun i => by
          rw [fill_outside (Or.inr (by omega))]
          exact congrArg m (by omega)
      have hhead : (fun i => m (0x1000 * (j + 1) * 16 + i)) = fun i => m (0x10000 * j + 0x10000 + i) :=
        funext fun i => congrArg m (by omega)
      have hlen : 0x80000 - 0x10000 * j = 0x10000 + (0x80000 - 0x10000 * (j + 1)) := by omega
      have hstart : 0x1000 * j * 16 = 0x10000 * j := by omega
      rw [hrest, hhead, hlen, ← fill_append, hstart]
      rfl

/-! ## From the image -/

variable {boot setup system image : List Byte} {root : RootArg}

/-- Where the parts of the image are. -/
theorem image_parts (h : Image boot setup system root image) :
    image[508]? = some root.numbers.1 ∧ image[509]? = some root.numbers.2 ∧
    (∀ i < (setup.drop minixHeader).length, image[512 + i]? = (setup.drop minixHeader)[i]?) ∧
    ∀ i < (system.drop gccHeader).length, image[512 * (1 + setupLen) + i]? = (system.drop gccHeader)[i]? := by
  obtain ⟨hblock, hsetup, -, himage⟩ := h
  obtain ⟨block, hpatched, hminor, hmajor, hlen⟩ : ∃ block,
      ((boot.drop minixHeader).set 508 root.numbers.1).set 509 root.numbers.2 = block ∧
      block[508]? = some root.numbers.1 ∧ block[509]? = some root.numbers.2 ∧ block.length = 512 := by
    refine ⟨_, rfl, ?_, List.getElem?_set_self (by rw [List.length_set]; omega), ?_⟩
    · rw [List.getElem?_set_ne (by decide), List.getElem?_set_self (by omega)]
    · rw [List.length_set, List.length_set, hblock]
  rw [hpatched] at himage
  have hcode : (setup.drop minixHeader ++
      List.replicate (setupSects * 512 - (setup.drop minixHeader).length) 0).length = setupSects * 512 := by
    rw [List.length_append, List.length_replicate, Nat.add_sub_of_le hsetup]
  subst himage
  refine ⟨?_, ?_, fun i hi => ?_, fun i hi => ?_⟩
  · rw [List.append_assoc, List.getElem?_append_left (by omega), hminor]
  · rw [List.append_assoc, List.getElem?_append_left (by omega), hmajor]
  · rw [List.append_assoc, List.getElem?_append_right (by omega), hlen, Nat.add_sub_cancel_left,
      List.getElem?_append_left (by omega), List.getElem?_append_left hi]
  · have hoff : 512 * (1 + setupLen) + i - (512 + setupSects * 512) = i := by
      unfold setupLen setupSects
      omega
    rw [List.getElem?_append_right (by rw [List.length_append, hlen, hcode]; unfold setupLen setupSects; omega),
      List.length_append, hlen, hcode, hoff]

theorem rootDev_eq (h : m 0x901FD ++ m 0x901FC ≠ 0#16 ∨ b.sectors = 15 ∨ b.sectors = 18) : ∃ m', rootDev b m = some m' ∧
    (∀ a, a ≠ 0x901FC → a ≠ 0x901FD → m' a = m a) ∧
    m' 0x901FD ++ m' 0x901FC = if m 0x901FD ++ m 0x901FC ≠ 0#16 then m 0x901FD ++ m 0x901FC
      else if b.sectors = 15 then 0x0208#16 else 0x021c#16 := by
  have hset : ∀ x y : Byte, (∀ a, a ≠ 0x901FC → a ≠ 0x901FD →
        Function.update (Function.update m 0x901FC x) 0x901FD y a = m a) ∧
      Function.update (Function.update m 0x901FC x) 0x901FD y 0x901FC = x := fun x y =>
    ⟨fun a h₁ h₂ => by rw [Function.update_of_ne h₂, Function.update_of_ne h₁],
      by rw [Function.update_of_ne (by decide), Function.update_self]⟩
  unfold rootDev
  split_ifs with h₁ h₂ h₃
  · exact ⟨m, rfl, fun _ _ _ => rfl, rfl⟩
  · exact ⟨_, rfl, (hset _ _).1, by rw [Function.update_self, (hset _ _).2]; rfl⟩
  · exact ⟨_, rfl, (hset _ _).1, by rw [Function.update_self, (hset _ _).2]; rfl⟩
  · obtain h | h | h := h
    · exact absurd h h₁
    · exact absurd h h₂
    · exact absurd h h₃

theorem word_zero (x y : Byte) : x ++ y = 0#16 ↔ y = 0 ∧ x = 0 := by
  have happend : (x ++ y).toNat = 2 ^ 8 * x.toNat + y.toNat := by
    rw [BitVec.toNat_append, Nat.shiftLeft_eq, Nat.mul_comm, Nat.two_pow_add_eq_or_of_lt y.isLt]
  rw [← BitVec.toNat_inj, ← BitVec.toNat_inj, ← BitVec.toNat_inj, happend]
  simp only [BitVec.toNat_ofNat, Nat.zero_mod, BitVec.ofNat_eq_ofNat]
  omega

/-- **What is booted is what was built.** From a floppy with the image on it, the system ends
at address 0 and the setup code behind the boot block, which holds the root device. -/
theorem boot_system (himage : build (some boot) (some setup) (some system) root = .ok image)
    (hdisk : ∀ i < image.length, image[i]? = some (b.disk i)) (hb : 5 < b.sectors) (hb' : b.sectors ≤ 63)
    (hroot : root.numbers ≠ (0, 0) ∨ b.sectors = 15 ∨ b.sectors = 18) (m : Mem) :
    ∃ m₁ m₂, bootsect b 385 m = some m₁ ∧ doMove 9 0 m₁ = some m₂ ∧
    (∀ i < (system.drop gccHeader).length, (system.drop gccHeader)[i]? = some (m₂ i)) ∧
    (∀ i < (setup.drop minixHeader).length, (setup.drop minixHeader)[i]? = some (m₂ (0x90200 + i))) ∧
    m₂ 0x901FD ++ m₂ 0x901FC = if root.numbers ≠ (0, 0) then root.numbers.2 ++ root.numbers.1
      else if b.sectors = 15 then 0x0208#16 else 0x021c#16 := by
  have hparts := build_image himage
  obtain ⟨hminor, hmajor, hcode, hsys⟩ := image_parts hparts
  obtain ⟨m₀, hload, hstart⟩ := bootsect_loads hb hb' (by decide : 384 < 385) m
  have hlt : ∀ {i x}, image[i]? = some x → x = b.disk i := fun {i x} hi => by
    obtain ⟨hlen, -⟩ := List.getElem?_eq_some_iff.mp hi
    exact Option.some.inj (hi.symm.trans (hdisk i hlen))
  have hlow : m₀ 0x901FC = root.numbers.1 := (hstart.block 508 (by decide)).trans (hlt hminor).symm
  have hhigh : m₀ 0x901FD = root.numbers.2 := (hstart.block 509 (by decide)).trans (hlt hmajor).symm
  have hzero : m₀ 0x901FD ++ m₀ 0x901FC ≠ 0#16 ↔ root.numbers ≠ (0, 0) := by
    rw [hlow, hhigh, Ne, Ne, word_zero, Prod.ext_iff]
  obtain ⟨m₁, hdev, hsame, hword⟩ := rootDev_eq (m := m₀) (hroot.imp_left hzero.mpr)
  have hmove := doMove_eq 0 (Nat.zero_le 8) (by decide : 8 - 0 < 9) m₁
  generalize hm₂ : fill m₁ (0x10000 * 0) (0x80000 - 0x10000 * 0) _ = m₂ at hmove
  have hdown : ∀ i < 0x30000, m₂ i = b.disk (512 * (1 + setupLen) + i) := fun i hi => by
    rw [← hm₂, fill_at (by omega) (by omega), Nat.mul_zero, Nat.zero_add, Nat.sub_zero,
      hsame _ (by omega) (by omega)]
    exact hstart.system i hi
  have hkept : ∀ a, 0x90000 ≤ a → m₂ a = m₁ a := fun a ha => by rw [← hm₂, fill_outside (Or.inr (by omega))]
  refine ⟨m₁, m₂, hload.trans hdev, hmove, fun i hi => ?_, fun i hi => ?_, ?_⟩
  · have hsize := hparts.systemLen
    unfold sysSize at hsize
    obtain ⟨x, hx⟩ : ∃ x, (system.drop gccHeader)[i]? = some x := ⟨_, List.getElem?_eq_getElem hi⟩
    rw [hx, hdown i (by omega), ← hlt ((hsys i hi).trans hx)]
  · have hsize := hparts.setupLen
    unfold setupSects at hsize
    obtain ⟨x, hx⟩ : ∃ x, (setup.drop minixHeader)[i]? = some x := ⟨_, List.getElem?_eq_getElem hi⟩
    rw [hx, hkept _ (by omega), hsame _ (by omega) (by omega), hstart.setup i (by unfold setupLen; omega),
      ← hlt ((hcode i hi).trans hx)]
  · rw [hkept _ (by omega), hkept _ (by omega), hword, hlow, hhigh]
    rw [hlow, hhigh] at hzero
    simp only [hzero]

/-- The header of a file from `ld86`, with nothing in its other fields. -/
def plainHeader : List Byte := [0x01, 0x03, 0x10, 0x04, 32] ++ List.replicate 27 0

/-- A floppy with a system of one byte. -/
theorem boot_system_byte : ∃ b m₁ m₂, bootsect b 385 (fun _ => 0) = some m₁ ∧ doMove 9 0 m₁ = some m₂ ∧
    m₂ 0 = 0xEB := by
  have hok : (build (some (plainHeader ++ List.replicate 510 0 ++ [0x55, 0xAA])) (some (plainHeader ++ [0x90]))
      (some (List.replicate 1024 0 ++ [0xEB])) .default).isOk = true := by decide +kernel
  cases himage : build (some (plainHeader ++ List.replicate 510 0 ++ [0x55, 0xAA])) (some (plainHeader ++ [0x90]))
      (some (List.replicate 1024 0 ++ [0xEB])) .default with
  | error e =>
    rw [himage] at hok
    cases hok
  | ok image =>
    obtain ⟨m₁, m₂, hload, hmove, hsys, -⟩ := boot_system
      (b := ⟨fun i => image.getD i 0, 18, fun _ => []⟩) himage
      (fun i hi => by simp [hi])
      (by decide : 5 < 18) (by decide : 18 ≤ 63) (Or.inl (by decide)) (fun _ => 0)
    have hlen : (List.replicate 1024 (0 : Byte) ++ [0xEB]).drop gccHeader = [0xEB] :=
      List.drop_left' (List.length_replicate)
    rw [hlen] at hsys
    exact ⟨_, m₁, m₂, hload, hmove, (Option.some.inj (hsys 0 (by decide))).symm⟩

end Linux011.Boot
