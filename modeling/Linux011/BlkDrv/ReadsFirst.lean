import Linux011.BlkDrv.Request

/-!
# Reads and writes in a queue

`IN_ORDER` puts reads before writes. `add_request` does not insert before the head, and
what comes before the head in this order is put after the descent of the queue, or at its
end if it has none, whatever it is.

* `elevate_overtaken`, `queued_add` — the insertions that leave the reads before the writes;
* `reads_first` — in runs of such insertions they always are;
* `read_behind_write` — a read, a write and a read of a smaller sector.
-/

namespace Linux011.BlkDrv

open Linux011.Lib

/-- `walk`, to the first `WRITE` behind the head: there is one, and no gap before it takes
the request. -/
def State.late (s : State) (r : Request) : Nat → Nat → Bool
  | 0, _ => false
  | n + 1, tmp =>
    match s.next tmp with
    | none => false
    | some nx =>
      !((inOrder (s.request tmp) r || !inOrder (s.request tmp) (s.request nx)) &&
        inOrder r (s.request nx)) && ((s.request nx).cmd = .write || s.late r n nx)

/-- The request is a `READ`, and late. -/
def State.overtaken (s : State) (d : Nat) (r : Request) : Bool :=
  r.cmd = .read && (s.current d).any (s.late r nrRequest)

/-- Insertions that `allow` permits, and removals of the head. -/
inductive Turn (allow : State → Request → Prop) (d : Nat) : State → State → Prop
  | add {s s' : State} (i : Nat) (r : Request) (hi : i < nrRequest) (hfree : (s.request i).dev < 0)
      (hdev : 0 ≤ r.dev) (hcmd : r.cmd = .read ∨ r.cmd = .write) (hallow : allow s r)
      (h : addRequest { s with request := Function.update s.request i r } d i = some s') :
      Turn allow d s s'
  | done {s s' : State} (up : Bool) (h : endRequest s d up = some s') : Turn allow d s s'

/-- Behind the head of the queue no `READ` is after a `WRITE`. -/
def State.ReadsFirst (s : State) (d : Nat) : Prop :=
  ∃ q, Chain s.next (s.current d) q ∧
    q.tail.Pairwise fun i j => (s.request i).cmd = .write → (s.request j).cmd ≠ .read

/-! ## The class of the writes -/

/-- The key of a `WRITE`. -/
def Writes (k : Key) : Prop := 1 ≤ (ofLex k).1

theorem writes_above (a b : Key) (ha : ¬ Writes a) (hb : Writes b) : a < b := by
  unfold Writes at ha hb
  exact Prod.Lex.lt_iff.mpr (Or.inl (by omega))

theorem writes_iff {r : Request} (hcmd : r.cmd = .read ∨ r.cmd = .write) :
    Writes r.key ↔ r.cmd = .write := by
  unfold Writes Request.key
  rcases hcmd with h | h <;> simp [h, Rw.code]

theorem late_spec {s : State} {r : Request} {tmp : Nat} {l : List Nat} {n : Nat}
    (h : Chain s.next (some tmp) (tmp :: l)) (hn : l.length < n)
    (hcmd : ∀ i, i ∈ l → (s.request i).cmd = .read ∨ (s.request i).cmd = .write) :
    s.late r n tmp = true ↔ Late Writes r.key (s.key tmp) (l.map s.key) := by
  induction l generalizing tmp n with
  | nil =>
    cases n with
    | zero => cases hn
    | succ n =>
      unfold State.late
      rw [show s.next tmp = none from h.2]
      simp [Late]
  | cons nx l ih =>
    cases n with
    | zero => cases hn
    | succ n =>
      unfold State.late
      rw [show s.next tmp = some nx from h.2.1]
      have hrest := ih ⟨rfl, h.2.2⟩ (Nat.lt_of_succ_lt_succ hn) fun i hi =>
        hcmd i (List.mem_cons_of_mem nx hi)
      have hwrite : Writes (s.key nx) ↔ (s.request nx).cmd = .write :=
        writes_iff (hcmd nx List.mem_cons_self)
      unfold List.map Late
      rw [hwrite, ← hrest]
      simp only [State.key, ← inOrder_iff, Bool.and_eq_true, Bool.or_eq_true, Bool.not_eq_true',
        ← Bool.not_eq_true, decide_eq_true_eq]

/-! ## Runs -/

/-- The invariant: the queue has requests that are in use, and behind the head the keys of
the writes are after the others. -/
structure Queued (s : State) (q : List Nat) (d : Nat) : Prop where
  chain : Chain s.next (s.current d) q
  slots : ∀ i, i ∈ q → i < nrRequest ∧ 0 ≤ (s.request i).dev
  cmd   : ∀ i, i ∈ q → (s.request i).cmd = .read ∨ (s.request i).cmd = .write
  apart : Apart Writes (q.tail.map s.key)

variable {s s' : State} {d : Nat} {q : List Nat} {allow : State → Request → Prop}

theorem pairwise_apart (h : ∀ i, i ∈ q → (s.request i).cmd = .read ∨ (s.request i).cmd = .write) :
    Apart Writes (q.map s.key) ↔
      q.Pairwise fun i j => (s.request i).cmd = .write → (s.request j).cmd ≠ .read := by
  unfold Apart
  rw [List.pairwise_map]
  refine List.Pairwise.iff_of_mem fun {i j} hi hj => ?_
  have hwi : Writes (s.key i) ↔ (s.request i).cmd = .write := writes_iff (h i hi)
  have hwj : Writes (s.key j) ↔ (s.request j).cmd = .write := writes_iff (h j hj)
  rw [hwi, hwj]
  rcases h j hj with hr | hr <;> simp [hr]

theorem readsFirst_iff (h : Chain s.next (s.current d) q)
    (hcmd : ∀ i, i ∈ q → (s.request i).cmd = .read ∨ (s.request i).cmd = .write) :
    s.ReadsFirst d ↔ Apart Writes (q.tail.map s.key) := by
  have htail := pairwise_apart (q := q.tail) fun i hi => hcmd i (List.mem_of_mem_tail hi)
  rw [htail]
  constructor
  · intro ⟨q', hq', hpair⟩
    exact h.functional hq' ▸ hpair
  · exact fun hpair => ⟨q, h, hpair⟩

/-- A request put into a slot that is free. -/
theorem Queued.fill (h : Queued s q d) {i : Nat} (hfree : (s.request i).dev < 0) (r : Request) :
    Queued { s with request := Function.update s.request i r } q d ∧ i ∉ q := by
  have hi : i ∉ q := fun hmem => absurd hfree (not_lt.mpr (h.slots i hmem).2)
  have hother : ∀ j, j ∈ q → Function.update s.request i r j = s.request j := by
    intro j hj
    have hne : j ≠ i := fun heq => hi (heq ▸ hj)
    exact Function.update_of_ne hne ..
  refine ⟨⟨h.chain, fun j hj => ?_, fun j hj => ?_, ?_⟩, hi⟩
  · show j < nrRequest ∧ 0 ≤ (Function.update s.request i r j).dev
    rw [hother j hj]
    exact h.slots j hj
  · show (Function.update s.request i r j).cmd = .read ∨ (Function.update s.request i r j).cmd = .write
    rw [hother j hj]
    exact h.cmd j hj
  · rw [map_key_update fun hmem => hi (List.mem_of_mem_tail hmem)]
    exact h.apart

theorem overtaken_late {tmp : Nat} {l : List Nat} (h : Queued s (tmp :: l) d) {r : Request}
    (hread : r.cmd = .read) : s.overtaken d r = true ↔ Late Writes r.key (s.key tmp) (l.map s.key) := by
  have hlen : l.length < nrRequest := by
    have hsub : (tmp :: l) ⊆ List.range nrRequest := fun i hi => List.mem_range.mpr (h.slots i hi).1
    have hperm := (List.Nodup.subperm h.chain.nodup hsub).length_le
    rw [List.length_range] at hperm
    exact hperm
  unfold State.overtaken
  rw [show s.current d = some tmp from h.chain.1, hread]
  simp only [decide_true, Bool.true_and, Option.any_some]
  exact late_spec ⟨rfl, h.chain.2⟩ hlen fun i hi => h.cmd i (List.mem_cons_of_mem tmp hi)

/-- The keys behind the head after an insertion. -/
theorem elevate_overtaken (h : Queued s q d) {r : Request} (hcmd : r.cmd = .read ∨ r.cmd = .write)
    {m : List Key} (hm : elevate r.key (q.map s.key) = m) : Apart Writes m.tail ↔ ¬ s.overtaken d r := by
  cases q with
  | nil =>
    subst hm
    have hidle : s.overtaken d r = false := by
      unfold State.overtaken
      rw [show s.current d = none from h.chain, Option.any_none, Bool.and_false]
    exact iff_of_true .nil (by simp [hidle])
  | cons tmp l =>
    obtain ⟨m', hm'⟩ := elevate_cons r.key (s.key tmp) (l.map s.key)
    obtain rfl : s.key tmp :: m' = m := hm'.symm.trans hm
    rcases hcmd with hread | hwrite
    · rw [overtaken_late h hread]
      refine elevate_apart_iff h.apart (fun hw => ?_) hm'
      rw [writes_iff (Or.inl hread), hread] at hw
      cases hw
    · have hnot : s.overtaken d r = false := by
        unfold State.overtaken
        rw [hwrite]
        rfl
      refine iff_of_true (elevate_apart writes_above h.apart ?_ hm') (by simp [hnot])
      exact (writes_iff (Or.inr hwrite)).mpr hwrite

/-- The queue after an insertion; whether its reads are first. -/
theorem queued_add (h : Queued s q d) {i : Nat} {r : Request} (hi : i < nrRequest)
    (hfree : (s.request i).dev < 0) (hdev : 0 ≤ r.dev) (hcmd : r.cmd = .read ∨ r.cmd = .write)
    (hs : addRequest { s with request := Function.update s.request i r } d i = some s') :
    (s'.ReadsFirst d ↔ ¬ s.overtaken d r) ∧ (¬ s.overtaken d r → ∃ q', Queued s' q' d) := by
  obtain ⟨h₁, hiq⟩ := h.fill hfree r
  obtain ⟨s'', q', hadd, hadded⟩ := addRequest_spec h₁.chain (fun j hj => (h₁.slots j hj).1) hiq
  obtain rfl : s'' = s' := Option.some.inj (hadd.symm.trans hs)
  have hkeys : elevate r.key (q.map s.key) = q'.map s''.key := by
    have hkey : s''.key = State.key { s with request := Function.update s.request i r } := by
      unfold State.key
      rw [hadded.request]
    have hself : State.key { s with request := Function.update s.request i r } i = r.key := by
      unfold State.key
      dsimp only
      rw [Function.update_self]
    rw [hkey, hadded.keys, hself, map_key_update hiq]
  have hreq : ∀ j, j ∈ q' → s''.request j = r ∧ j = i ∨ j ∈ q ∧ s''.request j = s.request j := by
    intro j hj
    rw [hadded.request]
    rcases hadded.mem.mp hj with rfl | hj
    · exact Or.inl ⟨Function.update_self .., rfl⟩
    · have hne : j ≠ i := fun heq => hiq (heq ▸ hj)
      exact Or.inr ⟨hj, Function.update_of_ne hne ..⟩
  have hcmds : ∀ j, j ∈ q' → (s''.request j).cmd = .read ∨ (s''.request j).cmd = .write := by
    intro j hj
    rcases hreq j hj with ⟨hr, -⟩ | ⟨hjq, hr⟩
    · rw [hr]
      exact hcmd
    · rw [hr]
      exact h.cmd j hjq
  have hapart : Apart Writes (q'.tail.map s''.key) ↔ ¬ s.overtaken d r := by
    rw [List.map_tail]
    exact elevate_overtaken h hcmd hkeys
  refine ⟨(readsFirst_iff hadded.chain hcmds).trans hapart, fun hallow => ⟨q', hadded.chain, fun j hj => ?_,
    hcmds, hapart.mpr hallow⟩⟩
  rcases hreq j hj with ⟨hr, rfl⟩ | ⟨hjq, hr⟩
  · rw [hr]
    exact ⟨hi, hdev⟩
  · rw [hr]
    exact h.slots j hjq

theorem queued_done (h : Queued s q d) {up : Bool} (hs : endRequest s d up = some s') :
    ∃ q', Queued s' q' d := by
  cases q with
  | nil =>
    unfold endRequest at hs
    rw [show s.current d = none from h.chain] at hs
    cases hs
  | cons i q =>
    have hiq : i ∉ q := (List.nodup_cons.mp h.chain.nodup).1
    obtain ⟨hchain, -, hrequest, -⟩ := endRequest_spec h.chain hs
    have hother : ∀ j, j ∈ q → s'.request j = s.request j := by
      intro j hj
      have hne : j ≠ i := fun heq => hiq (heq ▸ hj)
      rw [hrequest]
      exact Function.update_of_ne hne ..
    have hmap : q.tail.map s'.key = q.tail.map s.key := by
      refine List.map_congr_left fun j hj => ?_
      unfold State.key
      rw [hother j (List.mem_of_mem_tail hj)]
    refine ⟨q, hchain, fun j hj => ?_, fun j hj => ?_, ?_⟩
    · rw [hother j hj]
      exact h.slots j (List.mem_cons_of_mem i hj)
    · rw [hother j hj]
      exact h.cmd j (List.mem_cons_of_mem i hj)
    · rw [hmap, List.map_tail]
      exact h.apart.tail

/-- **Reads first.** As long as no late `READ` is added: the reads behind the head, for which
tasks wait, are before the writes; and they would not be after the first that is. -/
theorem reads_first (hempty : s.current d = none)
    (hrun : Relation.ReflTransGen (Turn (fun s r => ¬ s.overtaken d r) d) s s') :
    s'.ReadsFirst d ∧ ∀ (i : Nat) (r : Request) (s'' : State), i < nrRequest → (s'.request i).dev < 0 →
      0 ≤ r.dev → (r.cmd = .read ∨ r.cmd = .write) →
      addRequest { s' with request := Function.update s'.request i r } d i = some s'' →
      (s''.ReadsFirst d ↔ ¬ s'.overtaken d r) := by
  have hqueued : ∃ q, Queued s' q d := by
    induction hrun with
    | refl => exact ⟨[], hempty, fun _ hi => (by cases hi), fun _ hi => (by cases hi), .nil⟩
    | tail _ hs ih =>
      obtain ⟨q, h⟩ := ih
      cases hs with
      | add i r hi hfree hdev hcmd hallow hadd => exact (queued_add h hi hfree hdev hcmd hadd).2 hallow
      | done up hdone => exact queued_done h hdone
  obtain ⟨q, h⟩ := hqueued
  exact ⟨(readsFirst_iff h.chain h.cmd).mpr h.apart, fun i r s'' hi hfree hdev hcmd hadd =>
    (queued_add h hi hfree hdev hcmd hadd).1⟩

/-! ## Three requests -/

/-- A request for a sector of the disk, put into slot `i`. -/
def putSector (s : State) (i : Nat) (cmd : Rw) (sector : Nat) : State :=
  (addRequest { s with request := Function.update s.request i ⟨0x301, cmd, sector, none⟩ } 3 i).getD s

theorem turn_put (i : Nat) (cmd : Rw) (sector : Nat) (hi : i < nrRequest) (hfree : (s.request i).dev < 0)
    (hcmd : cmd = .read ∨ cmd = .write) (hallow : allow s ⟨0x301, cmd, sector, none⟩)
    (hs : (addRequest { s with request := Function.update s.request i ⟨0x301, cmd, sector, none⟩ } 3 i).isSome) :
    Turn allow 3 s (putSector s i cmd sector) := by
  refine .add i ⟨0x301, cmd, sector, none⟩ hi hfree (by show (0 : Int) ≤ 0x301; decide) hcmd hallow ?_
  obtain ⟨s', hs'⟩ := Option.isSome_iff_exists.mp hs
  unfold putSector
  rw [hs']
  rfl

/-- Sector 20 is read before sector 4 is written. -/
theorem reads_first_three :
    (putSector (putSector (putSector idleDisk 0 .read 10) 1 .write 4) 2 .read 20).ReadsFirst 3 := by
  have hrun : Relation.ReflTransGen (Turn (fun s r => ¬ s.overtaken 3 r) 3) idleDisk
      (putSector (putSector (putSector idleDisk 0 .read 10) 1 .write 4) 2 .read 20) :=
    .tail (.tail (.single
      (turn_put 0 .read 10 (by decide) (by decide) (by decide) (by decide) (by decide)))
      (turn_put 1 .write 4 (by decide) (by decide) (by decide) (by decide) (by decide)))
      (turn_put 2 .read 20 (by decide) (by decide) (by decide) (by decide) (by decide))
  exact (reads_first rfl hrun).1

/-- Sector 10 is being read. A write of sector 4 waits, and a read of sector 5 goes behind
it. -/
theorem read_behind_write : ¬ ∀ (d : Nat) (s s' : State), s.current d = none →
    Relation.ReflTransGen (Turn (fun _ _ => True) d) s s' → s'.ReadsFirst d := by
  intro h
  obtain ⟨q, hq, hpair⟩ := h 3 idleDisk
    (putSector (putSector (putSector idleDisk 0 .read 10) 1 .write 4) 2 .read 5) rfl
    (.tail (.tail (.single
      (turn_put 0 .read 10 (by decide) (by decide) (by decide) trivial (by decide)))
      (turn_put 1 .write 4 (by decide) (by decide) (by decide) trivial (by decide)))
      (turn_put 2 .read 5 (by decide) (by decide) (by decide) trivial (by decide)))
  have hqueue : Chain (putSector (putSector (putSector idleDisk 0 .read 10) 1 .write 4) 2 .read 5).next
      ((putSector (putSector (putSector idleDisk 0 .read 10) 1 .write 4) 2 .read 5).current 3) [0, 1, 2] :=
    ⟨rfl, rfl, rfl, rfl⟩
  obtain rfl := hq.functional hqueue
  exact (List.pairwise_cons.mp hpair).1 2 (List.mem_singleton_self 2) (by decide) (by decide)

end Linux011.BlkDrv
