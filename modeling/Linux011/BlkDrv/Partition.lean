import Linux011.BlkDrv.HardDisk

/-!
# Partitions

`do_hd_request` compares the sector of a request with the size of its partition before it
adds the start, both as unsigned 32-bit numbers, and splits the sum with two divisions.
`hd_out` takes no head above 15, and its ports a byte for the sector and two for the
cylinder, as `sys_setup` reads them from the table of the BIOS.

* `addressed` — where a request that is not refused goes;
* `sectorOf_unique` — an address is of one sector;
* `request_confined` — what `do_hd_request` does with the first request, for sectors to
  which 2 can be added;
* `confined_fails` — a drive with 17 heads, one with 300 sectors a track, and the last but
  one sector there is.
-/

namespace Linux011.BlkDrv.Hd

open Linux011.Lib

/-- Drives have heads and sectors, and partitions lie on them. -/
structure Disks.Lies (D : Disks) : Prop where
  nrHd  : D.nrHd ≤ 2
  head  : ∀ d, d < D.nrHd → 1 ≤ (D.hdInfo d).head
  sect  : ∀ d, d < D.nrHd → 1 ≤ (D.hdInfo d).sect
  start : ∀ m, m < 5 * D.nrHd → 0 ≤ (D.hd m).startSect ∧ (D.hd m).startSect < 2147483648
  size  : ∀ m, m < 5 * D.nrHd → 0 ≤ (D.hd m).nrSects ∧ (D.hd m).nrSects < 2147483648
  range : ∀ m, m < 5 * D.nrHd → (D.hd m).startSect + (D.hd m).nrSects ≤
    (D.hdInfo (m / 5)).cyl * (D.hdInfo (m / 5)).head * (D.hdInfo (m / 5)).sect

/-- The geometry is one of the BIOS: its sectors are a byte, its cylinders 16 bits. -/
structure Disks.Ok (D : Disks) : Prop extends D.Lies where
  sectByte : ∀ d, d < D.nrHd → (D.hdInfo d).sect ≤ 255
  cylShort : ∀ d, d < D.nrHd → (D.hdInfo d).cyl ≤ 65535

def Request.isWrite (r : Request) : Bool := r.cmd = .write

/-- The command for the transfer. -/
def Request.winCmd (r : Request) : Cmd := if r.isWrite then .winWrite else .winRead

/-- The address of a request is one of the drive, that of its sector of the partition; the
sector after it is in the partition too. The ports take the address as it is if those of
the drive fit into them. -/
structure Disks.Addressed (D : Disks) (r : Request) : Prop where
  minor  : r.minor < 5 * D.nrHd
  head   : D.head r < (D.info r).head
  secPos : 1 ≤ D.sec r
  secLe  : D.sec r ≤ (D.info r).sect
  cyl    : D.cyl r < (D.info r).cyl
  number : ((D.info r).number (D.sec r) (D.head r) (D.cyl r) : Int) = (D.hd r.minor).startSect + r.sector
  within : (r.sector : Int) + 2 ≤ (D.hd r.minor).nrSects
  ports  : (D.info r).sect ≤ 255 → (D.info r).cyl ≤ 65536 → ∀ cmd, (D.transfer r cmd).ports =
    { D.transfer r cmd with nsect := r.nrSectors % 256 }

variable {β : Type} {D : Disks} {r : Request} {s : State β} {q : List Request}

theorem unsigned_of_fits {x : Int} (h₀ : 0 ≤ x) (h₁ : x < 2147483648) : (unsigned x : Int) = x := by
  unfold unsigned
  omega

/-- The two divisions, and back. -/
theorem number_of_division (i : Info) (b : Nat) :
    i.number (b % i.sect + 1) (b / i.sect % i.head) (b / i.sect / i.head) = b := by
  unfold Info.number
  rw [Nat.div_add_mod']
  have := Nat.div_add_mod' b i.sect
  omega

theorem number_transfer : (D.info r).number (D.sec r) (D.head r) (D.cyl r) = D.block r :=
  number_of_division (D.info r) (D.block r)

theorem refuses_iff (h : D.Lies) (hsector : r.sector + 2 < 4294967296) : D.refuses r = true ↔
    5 * D.nrHd ≤ r.minor ∨ (D.hd r.minor).nrSects < r.sector + 2 := by
  unfold Disks.refuses
  rw [Bool.or_eq_true, decide_eq_true_eq, decide_eq_true_eq, Nat.mod_eq_of_lt hsector]
  refine or_congr_right' fun hminor => ?_
  have hsize := h.size r.minor (Nat.lt_of_not_le hminor)
  have hunsigned := unsigned_of_fits hsize.1 hsize.2
  omega

theorem block_eq (h : D.Lies) (hsector : r.sector + 2 < 4294967296) (hr : D.refuses r = false) :
    r.minor < 5 * D.nrHd ∧ (r.sector : Int) + 2 ≤ (D.hd r.minor).nrSects ∧
      (D.block r : Int) = (D.hd r.minor).startSect + r.sector := by
  have hiff := refuses_iff h hsector
  rw [hr] at hiff
  have hno : ¬ (5 * D.nrHd ≤ r.minor ∨ (D.hd r.minor).nrSects < r.sector + 2) := fun hf =>
    Bool.false_ne_true (hiff.mpr hf)
  rw [not_or, Nat.not_le, Int.not_lt] at hno
  have hstart := h.start r.minor hno.1
  have hsize := h.size r.minor hno.1
  have hunsigned := unsigned_of_fits hstart.1 hstart.2
  refine ⟨hno.1, hno.2, ?_⟩
  unfold Disks.block
  omega

theorem Disks.Lies.drive (h : D.Lies) (hminor : r.minor < 5 * D.nrHd) : r.minor / 5 < D.nrHd ∧ r.minor / 5 ≤ 1 := by
  have := h.nrHd
  omega

/-- A request that is not refused. -/
theorem addressed (h : D.Lies) (hsector : r.sector + 2 < 4294967296) (hr : D.refuses r = false) :
    D.Addressed r := by
  obtain ⟨hminor, hwithin, hblock⟩ := block_eq h hsector hr
  obtain ⟨hdrive, -⟩ := h.drive hminor
  have hhead : 0 < (D.info r).head := h.head _ hdrive
  have hsect : 0 < (D.info r).sect := h.sect _ hdrive
  have hcyl : D.cyl r < (D.info r).cyl := by
    unfold Disks.cyl
    rw [Nat.div_div_eq_div_mul]
    refine Nat.div_lt_of_lt_mul ?_
    have hrange := h.range r.minor hminor
    have hlt : (D.block r : Int) < (D.info r).cyl * (D.info r).head * (D.info r).sect := by
      unfold Disks.info
      omega
    have hcomm : (D.info r).sect * (D.info r).head * (D.info r).cyl =
        (D.info r).cyl * (D.info r).head * (D.info r).sect := by
      rw [Nat.mul_comm, Nat.mul_comm (D.info r).sect, Nat.mul_assoc]
    rw [hcomm]
    exact_mod_cast hlt
  have hsec : D.sec r ≤ (D.info r).sect := Nat.mod_lt _ hsect
  refine ⟨hminor, Nat.mod_lt _ hhead, Nat.succ_pos _, hsec, hcyl, ?_, hwithin, fun hbyte hshort cmd => ?_⟩
  · rw [number_transfer]
    exact hblock
  · have hsecPort : D.sec r % 256 = D.sec r := Nat.mod_eq_of_lt (by omega)
    have hcylPort : D.cyl r % 65536 = D.cyl r := Nat.mod_eq_of_lt (by omega)
    simp only [Command.ports, Disks.transfer, hsecPort, hcylPort]

/-! ## The first request -/

/-- What the controller is told when it is time for `r`: a reset and a recalibration come
first. -/
structure Programs (D : Disks) (r : Request) (s s' : State β) : Prop where
  queue   : s'.queue = s.queue
  done    : s'.done = s.done
  reset   : s.reset = true → s'.reset = false ∧ s'.recalibrate = true ∧ s'.doHd = some .recalIntr
  restore : s.reset = false → s.recalibrate = true →
    s'.recalibrate = false ∧ s'.doHd = some .recalIntr
  job     : s.reset = false → s.recalibrate = false → s'.command = some (D.transfer r r.winCmd).ports

/-- The head is one that `hd_out` takes; a reset is with the last head of the drive. -/
def State.HeadOk (D : Disks) (r : Request) (s : State β) : Prop :=
  if s.reset then (D.info r).head ≤ 16 else s.recalibrate = true ∨ D.head r ≤ 15

instance (D : Disks) (r : Request) (s : State β) : Decidable (s.HeadOk D r) := by
  unfold State.HeadOk
  infer_instance

/-- It ends with `Q` if `ok` holds, and else in the panic of `hd_out`. -/
def PanicsUnless (ok : Prop) (x : Drv β Unit) (Q : Unit → State β → Prop) (s : State β) : Prop :=
  (ok → wp x Q (fun _ _ => False) s) ∧ (¬ ok → wp x (fun _ _ => False) (fun e _ => e = .badSector) s)

theorem panics_hdOut (c : Command) (intrAddr : Handler) {ok : Prop} (hok : ok ↔ c.drive ≤ 1 ∧ c.head ≤ 15)
    {Q : Unit → State β → Prop}
    (hQ : ok → Q () { s with doHd := some intrAddr, command := some c.ports, job := jobOf D c.ports }) :
    PanicsUnless ok (hdOut D c intrAddr) Q s := by
  refine ⟨fun h => ?_, fun h => ?_⟩
  · have hin := hok.mp h
    rw [wp_hdOut, if_neg (by omega)]
    exact hQ h
  · have hout : ¬ (c.drive ≤ 1 ∧ c.head ≤ 15) := fun hin => h (hok.mpr hin)
    rw [wp_hdOut, if_pos (by omega)]

theorem issue_programs (h : D.Lies) (hminor : r.minor < 5 * D.nrHd)
    (hcmd : r.cmd = .read ∨ r.cmd = .write) :
    PanicsUnless (s.HeadOk D r) (issue D r) (fun _ => Programs D r s) s := by
  obtain ⟨hdrive, hone⟩ := h.drive hminor
  have hhead : 0 < (D.info r).head := h.head _ hdrive
  unfold PanicsUnless
  rw [wp_issue (h.sect _ hdrive) hhead, wp_issue (h.sect _ hdrive) hhead]
  by_cases hreset : s.reset = true
  · rw [if_pos hreset, if_pos hreset]
    refine panics_hdOut _ _ ?_ fun _ => ⟨rfl, rfl, fun _ => ⟨rfl, rfl, rfl⟩, ?_, ?_⟩
    · rw [State.HeadOk, if_pos hreset]
      show (D.info r).head ≤ 16 ↔ r.minor / 5 ≤ 1 ∧ down (D.info r).head ≤ 15
      unfold down
      rw [if_neg (Nat.ne_of_gt hhead)]
      omega
    · simp [hreset]
    · simp [hreset]
  · rw [if_neg hreset, if_neg hreset]
    rw [Bool.not_eq_true] at hreset
    by_cases hrecal : s.recalibrate = true
    · rw [if_pos hrecal, if_pos hrecal]
      refine panics_hdOut _ _ ?_ fun _ => ⟨rfl, rfl, ?_, fun _ _ => ⟨rfl, rfl⟩, ?_⟩
      · simp [State.HeadOk, hreset, hrecal, hone]
      · simp [hreset]
      · simp [hrecal]
    · have hok : s.HeadOk D r ↔ r.minor / 5 ≤ 1 ∧ D.head r ≤ 15 := by
        simp [State.HeadOk, hreset, hrecal, hone]
      have hprograms : ∀ {s' : State β}, s'.queue = s.queue → s'.done = s.done →
          s'.command = some (D.transfer r r.winCmd).ports → Programs D r s s' := fun hq hd hc =>
        ⟨hq, hd, by simp [hreset], fun _ hr => absurd hr hrecal, fun _ _ => hc⟩
      rw [if_neg hrecal, if_neg hrecal]
      by_cases hw : r.cmd = .write
      · rw [if_pos hw, if_pos hw]
        refine panics_hdOut _ _ hok fun _ => hprograms rfl rfl ?_
        simp [Request.winCmd, Request.isWrite, hw]
      · have hread := hcmd.resolve_right hw
        rw [if_neg hw, if_neg hw, if_pos hread, if_pos hread]
        refine panics_hdOut _ _ hok fun _ => hprograms rfl rfl ?_
        simp [Request.winCmd, Request.isWrite, hw]

/-- The sector of the drive that a request begins with. -/
def Disks.sectorOf (D : Disks) (r : Request) : Int := (D.hd r.minor).startSect + r.sector

/-- What has one address is one sector of the drive. -/
theorem sectorOf_unique (h : D.Addressed r) {r' : Request} (h' : D.Addressed r')
    (hdrive : r'.minor / 5 = r.minor / 5) (hcyl : D.cyl r' = D.cyl r) (hhead : D.head r' = D.head r)
    (hsec : D.sec r' = D.sec r) : D.sectorOf r' = D.sectorOf r := by
  have hinfo : D.info r' = D.info r := by
    unfold Disks.info
    rw [hdrive]
  have hnumber := h'.number
  rw [hinfo, hcyl, hhead, hsec, h.number] at hnumber
  exact hnumber.symm

/-- **Requests stay in their partition.** The request fails if its minor device does not
exist or its partition ends before the two sectors. Else the ports of the controller get
the address of its sector, after a reset or a recalibration if one is due, if the head is
below 16; and if it is not, `hd_out` panics. -/
theorem request_confined (h : D.Lies) (hq : s.queue = r :: q) (hdev : r.dev / 256 = 3)
    (hcmd : r.cmd = .read ∨ r.cmd = .write) (hsector : r.sector + 2 < 4294967296) :
    if 5 * D.nrHd ≤ r.minor ∨ (D.hd r.minor).nrSects < r.sector + 2 then
      doHdRequest D s = doHdRequest D { s with queue := q, done := s.done ++ [(r.id, false)] }
    else
      PanicsUnless (s.HeadOk D r) (doHdRequest D) (fun _ => Programs D r s) s ∧
        D.Addressed r ∧
        ∀ r', r'.sector + 2 < 4294967296 → D.refuses r' = false → r'.minor / 5 = r.minor / 5 →
          D.cyl r' = D.cyl r → D.head r' = D.head r → D.sec r' = D.sec r →
          D.sectorOf r' = D.sectorOf r := by
  have hmajor : ¬ r.dev / 256 ≠ 3 := not_not_intro hdev
  have hrefuses := refuses_iff h hsector
  split
  · rename_i hbad
    have hr : D.refuses r = true := hrefuses.mpr hbad
    show doRequests D s.queue s = doRequests D q { s with queue := q, done := s.done ++ [(r.id, false)] }
    rw [hq, doRequests, if_neg hmajor, if_pos hr]
    show EStateM.bind (endRequest false) (fun _ => doRequests D q) s = doRequests D q _
    rw [EStateM.bind, endRequest_eq hq]
  · rename_i hgood
    have hr : D.refuses r = false := by
      rw [← Bool.not_eq_true, hrefuses]
      exact hgood
    have haddressed := addressed h hsector hr
    refine ⟨?_, haddressed, fun r' hsector' hr' => sectorOf_unique haddressed (addressed h hsector' hr')⟩
    have hissue : ∀ (Q : Unit → State β → Prop) (E : Fault → State β → Prop),
        wp (doHdRequest D) Q E s ↔ wp (issue D r) Q E s := by
      intro Q E
      rw [wp_doHdRequest, hq, wp_doRequests_cons, if_neg hmajor, if_neg (by simp [hr])]
    unfold PanicsUnless
    rw [hissue, hissue]
    exact issue_programs h haddressed.minor hcmd

-- 17 heads of 10 sectors on each of 100 cylinders, and a partition from sector 100 on.
def tallDisks : Disks := ⟨1, fun _ => ⟨17, 10, 100⟩, fun _ => ⟨100, 16900⟩⟩

-- 2 heads of 300 sectors.
def wideDisks : Disks := ⟨1, fun _ => ⟨2, 300, 100⟩, fun _ => ⟨0, 60000⟩⟩

def tallState (sector : Nat) : State Unit :=
  ⟨[⟨0, 769, .read, 0, sector, 2, 0⟩], false, false, none, false, none, none, fun _ _ => (),
    fun _ => (), []⟩

theorem tallDisks_lies : tallDisks.Lies := by
  refine ⟨?_, ?_, ?_, ?_, ?_, fun _ _ => (by decide : (100 : Int) + 16900 ≤ 100 * 17 * 10)⟩
  all_goals simp [tallDisks]

theorem wideDisks_lies : wideDisks.Lies := by
  refine ⟨?_, ?_, ?_, ?_, ?_, fun _ _ => (by decide : (0 : Int) + 60000 ≤ 100 * 2 * 300)⟩
  all_goals simp [wideDisks]

/-- The request for sector 7 of the partition is programmed, and that for sector 60 is not. -/
theorem request_confined_tall :
    wp (doHdRequest tallDisks) (fun _ => Programs tallDisks ⟨0, 769, .read, 0, 7, 2, 0⟩ (tallState 7))
        (fun _ _ => False) (tallState 7) ∧
      wp (doHdRequest tallDisks) (fun _ _ => False) (fun e _ => e = .badSector) (tallState 60) ∧
      tallDisks.Addressed ⟨0, 769, .read, 0, 7, 2, 0⟩ := by
  have h := request_confined tallDisks_lies (s := tallState 7) rfl rfl (.inl rfl) (by decide)
  have h' := request_confined tallDisks_lies (s := tallState 60) rfl rfl (.inl rfl) (by decide)
  rw [if_neg (by decide)] at h h'
  exact ⟨h.1.1 (by decide), h'.1.2 (by decide), h.2.1⟩

/-- Track 16 of a cylinder is on the disk, but `hd_out` panics. Sector 256 of a track is on
the disk, but its port gets 0. The last but one sector there is passes the check and is a
sector before the partition. -/
theorem confined_fails :
    (tallDisks.Lies ∧
      wp (doHdRequest tallDisks) (fun _ _ => False) (fun e _ => e = .badSector) (tallState 60)) ∧
    (wideDisks.Lies ∧
      wp (doHdRequest wideDisks) (fun _ s => s.command = some ⟨0, 2, 0, 0, 0, .winRead⟩) (fun _ _ => False)
        (tallState 255)) ∧
      wp (doHdRequest tallDisks) (fun _ s => s.command = some ⟨0, 2, 9, 9, 0, .winRead⟩) (fun _ _ => False)
        (tallState 4294967294) :=
  ⟨⟨tallDisks_lies, by decide⟩, ⟨wideDisks_lies, by decide⟩, by decide⟩

end Linux011.BlkDrv.Hd
