import Linux011.BlkDrv.Request

/-!
# Request slots

The slots with a device, the queues of the devices and the locks of buffers are kept
together: a slot that is used is on the queue of its device, or is being filled by the
task that runs, and has its buffer locked for itself.

* `Inv` — the invariant; `q` are the slots on the queue of each device;
* `inv_task`, `inv_fill`, `inv_add`, `inv_complete` — the kinds of steps;
* `request_slots` — every run.
-/

namespace Linux011.BlkDrv

open Linux011.Lib

variable {c c' : Config} {q : Nat → List Nat}

/-- What is true of a task after one has gone on is true of its new phase, or was before. -/
theorem update_cases {f : Nat → Phase} {t t' : Nat} {v : Phase} (P : Phase → Prop)
    (h : P (Function.update f t v t')) : t' = t ∧ P v ∨ t' ≠ t ∧ P (f t') := by
  by_cases ht : t' = t
  · subst ht
    rw [Function.update_self] at h
    exact Or.inl ⟨rfl, h⟩
  · rw [Function.update_of_ne ht] at h
    exact Or.inr ⟨ht, h⟩

/-- The call a task is in. -/
def Phase.call : Phase → Option Call
  | .idle => none
  | .lock c => some c
  | .check c => some c
  | .scan c => some c
  | .fill c _ => some c
  | .add c _ => some c

/-- The buffer a task has locked. -/
def Phase.holds : Phase → Option Nat
  | .idle => none
  | .lock _ => none
  | .check c => some c.bh
  | .scan c => some c.bh
  | .fill c _ => some c.bh
  | .add c _ => some c.bh

/-- Where a task never sleeps. -/
def Phase.awake : Phase → Bool
  | .check _ => true
  | .fill _ _ => true
  | .add _ _ => true
  | _ => false

/-- A buffer is locked for a task, or for a slot that is queued. -/
def HeldBy (c : Config) (q : Nat → List Nat) (b : Nat) : Nat ⊕ Nat → Prop
  | .inl t => (c.task t).holds = some b
  | .inr i => (∃ d, i ∈ q d) ∧ (c.s.request i).bh = some b

/-- What a slot says that was filled for a call. -/
structure Filled (s : State) (cl : Call) (i : Nat) : Prop where
  lt    : i < limit cl.rw
  dev   : 0 ≤ (s.request i).dev
  major : major (s.request i).dev = cl.major
  cmd   : (s.request i).cmd = cl.rw
  bh    : (s.request i).bh = some cl.bh

structure Inv (c : Config) (q : Nat → List Nat) : Prop where
  chain    : ∀ d, Chain c.s.next (c.s.current d) (q d)
  queued   : ∀ d i, i ∈ q d → i < nrRequest ∧ 0 ≤ (c.s.request i).dev ∧
    major (c.s.request i).dev = d ∧ ∃ b, (c.s.request i).bh = some b
  placed   : ∀ i, i < nrRequest → 0 ≤ (c.s.request i).dev →
    (∃ d, i ∈ q d) ∨ ∃ t cl, c.task t = .add cl i
  holders  : ∀ b x y, HeldBy c q b x → HeldBy c q b y → x = y
  locked   : ∀ b x, HeldBy c q b x → (c.s.bh b).lock = true
  alone    : ∀ t, (c.task t).awake = true → c.running = some t
  calls    : ∀ t cl, (c.task t).call = some cl →
    cl.major = major (c.s.bh cl.bh).dev ∧ (cl.rw = .read ∨ cl.rw = .write)
  free     : ∀ t cl i, c.task t = .fill cl i → i < limit cl.rw ∧ (c.s.request i).dev < 0
  filled   : ∀ t cl i, c.task t = .add cl i → Filled c.s cl i ∧ ∀ d, i ∉ q d
  write    : ∀ i, i < nrRequest → 0 ≤ (c.s.request i).dev →
    (c.s.request i).cmd = .read ∨ (c.s.request i).cmd = .write ∧ i < limit .write
  ended    : c.completed.Nodup ∧ ∀ n, n ∈ c.completed → n < c.issued
  idents   : ∀ d i, i ∈ q d → c.ident i < c.issued ∧ c.ident i ∉ c.completed
  distinct : ∀ d i d' j, i ∈ q d → j ∈ q d' → c.ident i = c.ident j → i = j
  all      : ∀ n, n < c.issued → n ∈ c.completed ∨ ∃ d i, i ∈ q d ∧ c.ident i = n

/-- A slot is on one queue at most. -/
theorem Inv.one (h : Inv c q) {d d' i : Nat} (hi : i ∈ q d) (hi' : i ∈ q d') : d' = d :=
  (h.queued d' i hi').2.2.1.symm.trans (h.queued d i hi).2.2.1

/-- While a task runs, or none, the others do not. -/
theorem Inv.asleep (h : Inv c q) {t : Nat} (hr : c.running = none ∨ c.running = some t) {t' : Nat}
    (ht : t' ≠ t) : (c.task t').awake = false := by
  by_contra hawake
  have hrun := h.alone t' (by simpa using hawake)
  rcases hr with hr | hr
  · rw [hr] at hrun
    cases hrun
  · exact ht (Option.some.inj (hrun.symm.trans hr))

theorem Inv.elsewhere (h : Inv c q) {t : Nat} (hr : c.running = some t) {t' : Nat} (ht : t' ≠ t) (cl : Call) (i : Nat) :
    c.task t' ≠ .fill cl i ∧ c.task t' ≠ .add cl i := by
  have hawake := h.asleep (Or.inr hr) ht
  refine ⟨fun hp => ?_, fun hp => ?_⟩
  · rw [hp] at hawake
    cases hawake
  · rw [hp] at hawake
    cases hawake

/-- A task goes on, and locks of buffers change. -/
theorem inv_task (h : Inv c q) {t : Nat} {p : Phase} {s : State} {r : Option Nat}
    (hr : c.running = none ∨ c.running = some t)
    (hslots : s.request = c.s.request ∧ s.next = c.s.next ∧ s.current = c.s.current)
    (hdev : ∀ b, (s.bh b).dev = (c.s.bh b).dev)
    (hadd : ∀ cl i, c.task t ≠ .add cl i) (hadd' : ∀ cl i, p ≠ .add cl i)
    (hawake : p.awake = true → r = some t)
    (hcall : ∀ cl, p.call = some cl →
      cl.major = major (c.s.bh cl.bh).dev ∧ (cl.rw = .read ∨ cl.rw = .write))
    (hfree : ∀ cl i, p = .fill cl i → i < limit cl.rw ∧ (c.s.request i).dev < 0)
    (hholders : ∀ b, p.holds = some b → ∀ x, x ≠ .inl t → ¬ HeldBy c q b x)
    (hlock : ∀ b, p.holds = some b → (s.bh b).lock = true)
    (hkept : ∀ b x, x ≠ .inl t → HeldBy c q b x → (s.bh b).lock = (c.s.bh b).lock) :
    Inv { c with s := s, task := Function.update c.task t p, running := r } q := by
  obtain ⟨hrequest, hnext, hcurrent⟩ := hslots
  -- what anybody else holds is as it was
  have hother : ∀ b x, x ≠ .inl t → (HeldBy
      { c with s := s, task := Function.update c.task t p, running := r } q b x ↔ HeldBy c q b x) := by
    intro b x hx
    cases x with
    | inl t' =>
      have hne : t' ≠ t := fun heq => hx (congrArg Sum.inl heq)
      unfold HeldBy
      dsimp only
      rw [Function.update_of_ne hne]
    | inr i =>
      unfold HeldBy
      dsimp only
      rw [hrequest]
  have hself : ∀ b, HeldBy
      { c with s := s, task := Function.update c.task t p, running := r } q b (.inl t) ↔
        p.holds = some b := by
    intro b
    unfold HeldBy
    dsimp only
    rw [Function.update_self]
  refine ⟨?_, ?_, ?_, ?_, ?_, ?_, ?_, ?_, ?_, ?_, h.ended, h.idents, h.distinct, h.all⟩
  · show ∀ d, Chain s.next (s.current d) (q d)
    rw [hnext, hcurrent]
    exact h.chain
  · show ∀ d i, i ∈ q d → i < nrRequest ∧ 0 ≤ (s.request i).dev ∧ major (s.request i).dev = d ∧
      ∃ b, (s.request i).bh = some b
    rw [hrequest]
    exact h.queued
  · show ∀ i, i < nrRequest → 0 ≤ (s.request i).dev →
      (∃ d, i ∈ q d) ∨ ∃ t' cl, Function.update c.task t p t' = .add cl i
    rw [hrequest]
    intro i hi hd
    rcases h.placed i hi hd with hq | ⟨t', cl, ht'⟩
    · exact Or.inl hq
    · refine Or.inr ⟨t', cl, ?_⟩
      have hne : t' ≠ t := by
        rintro rfl
        exact hadd cl i ht'
      rw [Function.update_of_ne hne]
      exact ht'
  · intro b x y hx hy
    by_cases hxt : x = .inl t
    · by_cases hyt : y = .inl t
      · rw [hxt, hyt]
      · subst hxt
        exact absurd ((hother b y hyt).mp hy) (hholders b ((hself b).mp hx) y hyt)
    · by_cases hyt : y = .inl t
      · subst hyt
        exact absurd ((hother b x hxt).mp hx) (hholders b ((hself b).mp hy) x hxt)
      · exact h.holders b x y ((hother b x hxt).mp hx) ((hother b y hyt).mp hy)
  · intro b x hx
    by_cases hxt : x = .inl t
    · subst hxt
      exact hlock b ((hself b).mp hx)
    · have hx' := (hother b x hxt).mp hx
      exact (hkept b x hxt hx').trans (h.locked b x hx')
  · intro t' hawake'
    rcases update_cases (·.awake = true) hawake' with ⟨rfl, hp⟩ | ⟨ht, hold⟩
    · exact hawake hp
    · rw [h.asleep hr ht] at hold
      cases hold
  · intro t' cl hcl
    show cl.major = major (s.bh cl.bh).dev ∧ _
    rw [hdev]
    rcases update_cases (·.call = some cl) hcl with ⟨rfl, hp⟩ | ⟨ht, hold⟩
    · exact hcall cl hp
    · exact h.calls t' cl hold
  · intro t' cl i hfill
    show i < limit cl.rw ∧ (s.request i).dev < 0
    rw [hrequest]
    rcases update_cases (· = .fill cl i) hfill with ⟨rfl, hp⟩ | ⟨ht, hold⟩
    · exact hfree cl i hp
    · exact h.free t' cl i hold
  · intro t' cl i hfill
    rcases update_cases (· = .add cl i) hfill with ⟨rfl, hp⟩ | ⟨ht, hold⟩
    · exact absurd hp (hadd' cl i)
    · obtain ⟨hf, hq⟩ := h.filled t' cl i hold
      refine ⟨⟨hf.lt, ?_, ?_, ?_, ?_⟩, hq⟩
      · show 0 ≤ (s.request i).dev
        rw [hrequest]
        exact hf.dev
      · show major (s.request i).dev = cl.major
        rw [hrequest]
        exact hf.major
      · show (s.request i).cmd = cl.rw
        rw [hrequest]
        exact hf.cmd
      · show (s.request i).bh = some cl.bh
        rw [hrequest]
        exact hf.bh
  · show ∀ i, i < nrRequest → 0 ≤ (s.request i).dev →
      (s.request i).cmd = .read ∨ (s.request i).cmd = .write ∧ i < limit .write
    rw [hrequest]
    exact h.write

theorem setBuffer_dev (s : State) (b : Nat) (x : Buffer) (hx : x.dev = (s.bh b).dev) (b' : Nat) :
    ((s.setBuffer b x).bh b').dev = (s.bh b').dev := by
  unfold State.setBuffer
  by_cases hb : b' = b
  · subst hb
    simp [hx]
  · simp [hb]

theorem setBuffer_lock_of_ne {s : State} {b b' : Nat} (x : Buffer) (hb : b' ≠ b) :
    ((s.setBuffer b x).bh b').lock = (s.bh b').lock := by
  simp [State.setBuffer, hb]

/-- A task goes on, and keeps the buffer that it has locked. -/
theorem inv_keep (h : Inv c q) {t : Nat} {p : Phase} {r : Option Nat} (hr : c.running = some t)
    (hadd : ∀ cl i, c.task t ≠ .add cl i) (hadd' : ∀ cl i, p ≠ .add cl i) (hawake : p.awake = true → r = some t)
    (hcall : p.call = (c.task t).call) (hholds : p.holds = (c.task t).holds)
    (hfree : ∀ cl i, p = .fill cl i → i < limit cl.rw ∧ (c.s.request i).dev < 0) :
    Inv { c with task := Function.update c.task t p, running := r } q := by
  refine inv_task h (Or.inr hr) ⟨rfl, rfl, rfl⟩ (fun _ => rfl) hadd hadd' hawake (fun cl hcl => ?_) hfree
    (fun b hb x hx hheld => ?_) (fun b hb => ?_) fun _ _ _ _ => rfl
  · exact h.calls t cl (hcall.symm.trans hcl)
  · exact hx (h.holders b x _ hheld (hholds.symm.trans hb))
  · exact h.locked b (.inl t) (hholds.symm.trans hb)

/-- A task unlocks its buffer, and the call ends. -/
theorem inv_leave (h : Inv c q) {t b : Nat} {r : Option Nat} (hr : c.running = some t)
    (hadd : ∀ cl i, c.task t ≠ .add cl i) (hb : (c.task t).holds = some b) :
    Inv { c with s := c.s.unlock b, task := Function.update c.task t .idle, running := r } q := by
  refine inv_task h (Or.inr hr) ⟨rfl, rfl, rfl⟩
    (fun b' => setBuffer_dev c.s b { c.s.bh b with lock := false } rfl b') hadd
    (fun _ _ hn => by cases hn) (fun hn => by cases hn) (fun _ hn => by cases hn)
    (fun _ _ hn => by cases hn) (fun _ hn => by cases hn) (fun _ hn => by cases hn) fun b' x hx hheld => ?_
  -- nobody else has it
  refine setBuffer_lock_of_ne _ ?_
  rintro rfl
  exact hx (h.holders b' x _ hheld hb)

theorem findSlot_spec {s : State} {n i : Nat} (h : s.findSlot n = some i) :
    i < n ∧ (s.request i).dev < 0 := by
  induction n with
  | zero => cases h
  | succ n ih =>
    unfold State.findSlot at h
    split at h
    · next hfree =>
      obtain rfl := Option.some.inj h
      exact ⟨Nat.lt_succ_self _, hfree⟩
    · obtain ⟨hlt, hfree⟩ := ih h
      exact ⟨Nat.lt_succ_of_lt hlt, hfree⟩

theorem limit_le (rw' : Rw) : limit rw' ≤ nrRequest := by
  unfold limit nrRequest
  split <;> omega

/-- A slot is filled. -/
theorem inv_fill (h : Inv c q) {t : Nat} {cl : Call} {i : Nat} (hr : c.running = some t)
    (ht : c.task t = .fill cl i) :
    Inv { c with
      s := { c.s with
        request := Function.update c.s.request i
          ⟨(c.s.bh cl.bh).dev, cl.rw, (c.s.bh cl.bh).blocknr * 2, some cl.bh⟩
        next := Function.update c.s.next i none }
      task := Function.update c.task t (.add cl i)
      running := some t } q := by
  obtain ⟨hlt, hfree⟩ := h.free t cl i ht
  obtain ⟨hmajor, hrw⟩ := h.calls t cl (by rw [ht]; rfl)
  have hiq : ∀ d, i ∉ q d := fun d hmem => absurd hfree (not_lt.mpr (h.queued d i hmem).2.1)
  have hne : ∀ {d j}, j ∈ q d → j ≠ i := by
    rintro d j hj rfl
    exact hiq d hj
  have hothers : ∀ t', t' ≠ t → (c.task t').awake = false := fun t' => h.asleep (Or.inr hr)
  -- whoever has a buffer locked has it as before
  have hheld : ∀ b x, HeldBy { c with
      s := { c.s with
        request := Function.update c.s.request i
          ⟨(c.s.bh cl.bh).dev, cl.rw, (c.s.bh cl.bh).blocknr * 2, some cl.bh⟩
        next := Function.update c.s.next i none }
      task := Function.update c.task t (.add cl i)
      running := some t } q b x → HeldBy c q b x := by
    intro b x hx
    cases x with
    | inl t' =>
      show (c.task t').holds = some b
      rcases update_cases (·.holds = some b) hx with ⟨rfl, hp⟩ | ⟨-, hold⟩
      · rw [ht]
        exact hp
      · exact hold
    | inr j =>
      obtain ⟨⟨d, hj⟩, hb⟩ := hx
      replace hb : (Function.update c.s.request i
        ⟨(c.s.bh cl.bh).dev, cl.rw, (c.s.bh cl.bh).blocknr * 2, some cl.bh⟩ j).bh = some b := hb
      rw [Function.update_of_ne (hne hj)] at hb
      exact ⟨⟨d, hj⟩, hb⟩
  refine ⟨?_, ?_, ?_, ?_, ?_, ?_, ?_, ?_, ?_, ?_, h.ended, h.idents, h.distinct, h.all⟩
  · exact fun d => (h.chain d).update (hiq d)
  · intro d j hj
    dsimp only
    rw [Function.update_of_ne (hne hj)]
    exact h.queued d j hj
  · intro j hj hd
    dsimp only at hd ⊢
    by_cases hji : j = i
    · exact Or.inr ⟨t, cl, by rw [Function.update_self, hji]⟩
    · rw [Function.update_of_ne hji] at hd
      rcases h.placed j hj hd with hq | ⟨t', cl', ht'⟩
      · exact Or.inl hq
      · have hawake := h.alone t' (by rw [ht']; rfl)
        obtain rfl : t = t' := Option.some.inj (hr.symm.trans hawake)
        rw [ht] at ht'
        cases ht'
  · exact fun b x y hx hy => h.holders b x y (hheld b x hx) (hheld b y hy)
  · exact fun b x hx => h.locked b x (hheld b x hx)
  · intro t' hawake
    dsimp only at hawake ⊢
    by_cases ht' : t' = t
    · rw [ht']
    · rw [Function.update_of_ne ht', hothers t' ht'] at hawake
      cases hawake
  · intro t' cl' hcl
    rcases update_cases (·.call = some cl') hcl with ⟨-, hp⟩ | ⟨-, hold⟩
    · cases hp
      exact ⟨hmajor, hrw⟩
    · exact h.calls t' cl' hold
  · intro t' cl' j hfill
    rcases update_cases (· = .fill cl' j) hfill with ⟨-, hp⟩ | ⟨hne', hold⟩
    · cases hp
    · exact absurd hold (h.elsewhere hr hne' cl' j).1
  · intro t' cl' j hfill
    rcases update_cases (· = .add cl' j) hfill with ⟨-, hp⟩ | ⟨hne', hold⟩
    · cases hp
      refine ⟨⟨hlt, ?_, ?_, ?_, ?_⟩, hiq⟩
      all_goals
        dsimp only
        rw [Function.update_self]
      · exact Int.natCast_nonneg _
      · exact hmajor.symm
    · exact absurd hold (h.elsewhere hr hne' cl' j).2
  · intro j hj hd
    dsimp only at hd ⊢
    by_cases hji : j = i
    · rw [hji, Function.update_self]
      rcases hrw with hrw | hrw
      · exact Or.inl hrw
      · exact Or.inr ⟨hrw, hrw ▸ hlt⟩
    · rw [Function.update_of_ne hji] at hd ⊢
      exact h.write j hj hd

/-- A slot is put on the queue of its device. -/
theorem inv_add (h : Inv c q) {t : Nat} {cl : Call} {i : Nat} (hr : c.running = some t)
    (ht : c.task t = .add cl i) {s : State} {q₁ : List Nat}
    (ha : Added c.s cl.major i (q cl.major) q₁ s) :
    Inv { c with
      s := s, task := Function.update c.task t .idle, running := none
      issued := c.issued + 1
      ident := Function.update c.ident i c.issued } (Function.update q cl.major q₁) := by
  obtain ⟨hfilled, hiq⟩ := h.filled t cl i ht
  have hilt : i < nrRequest := lt_of_lt_of_le hfilled.lt (limit_le cl.rw)
  have hne : ∀ {d j}, j ∈ q d → j ≠ i := by
    rintro d j hj rfl
    exact hiq d hj
  have hothers : ∀ t', t' ≠ t → (c.task t').awake = false := fun t' => h.asleep (Or.inr hr)
  -- the queues have the new slot and the old ones
  have hmem : ∀ d j, j ∈ Function.update q cl.major q₁ d ↔ (d = cl.major ∧ j = i) ∨ j ∈ q d := by
    intro d j
    by_cases hd : d = cl.major
    · subst hd
      rw [Function.update_self, ha.mem]
      simp
    · rw [Function.update_of_ne hd]
      simp [hd]
  have hnew : i ∈ Function.update q cl.major q₁ cl.major := (hmem _ _).mpr (Or.inl ⟨rfl, rfl⟩)
  have hheld : ∀ b x, HeldBy { c with
      s := s, task := Function.update c.task t .idle, running := none
      issued := c.issued + 1
      ident := Function.update c.ident i c.issued } (Function.update q cl.major q₁) b x →
      (x = .inr i ∧ b = cl.bh) ∨ (x ≠ .inl t ∧ HeldBy c q b x) := by
    intro b x hx
    cases x with
    | inl t' =>
      rcases update_cases (·.holds = some b) hx with ⟨-, hp⟩ | ⟨ht', hold⟩
      · cases hp
      · exact Or.inr ⟨fun heq => ht' (Sum.inl.inj heq), hold⟩
    | inr j =>
      obtain ⟨⟨d, hj⟩, hb⟩ := hx
      replace hb : (s.request j).bh = some b := hb
      rw [ha.request] at hb
      rcases (hmem d j).mp hj with ⟨-, rfl⟩ | hj
      · rw [hfilled.bh] at hb
        exact Or.inl ⟨rfl, (Option.some.inj hb).symm⟩
      · exact Or.inr ⟨Sum.inr_ne_inl, ⟨d, hj⟩, hb⟩
  have hold : HeldBy c q cl.bh (.inl t) := by
    show (c.task t).holds = some cl.bh
    rw [ht]
    rfl
  refine ⟨?_, ?_, ?_, ?_, ?_, ?_, ?_, ?_, ?_, ?_, ?_, ?_, ?_, ?_⟩
  · intro d
    by_cases hd : d = cl.major
    · subst hd
      rw [Function.update_self]
      exact ha.chain
    · rw [Function.update_of_ne hd]
      dsimp only
      rw [ha.current d hd]
      refine (h.chain d).congr fun a haq => ha.next a ?_ (hne haq)
      exact fun hmem' => hd (h.one hmem' haq)
  · intro d j hj
    dsimp only
    rw [ha.request]
    rcases (hmem d j).mp hj with ⟨rfl, rfl⟩ | hj
    · exact ⟨hilt, hfilled.dev, hfilled.major, cl.bh, hfilled.bh⟩
    · exact h.queued d j hj
  · intro j hj hd
    dsimp only at hd ⊢
    rw [ha.request] at hd
    rcases h.placed j hj hd with ⟨d, hjq⟩ | ⟨t', cl', ht'⟩
    · exact Or.inl ⟨d, (hmem d j).mpr (Or.inr hjq)⟩
    · have hawake := h.alone t' (by rw [ht']; rfl)
      obtain rfl : t = t' := Option.some.inj (hr.symm.trans hawake)
      rw [ht] at ht'
      cases ht'
      exact Or.inl ⟨_, hnew⟩
  · intro b x y hx hy
    rcases hheld b x hx with ⟨hxi, rfl⟩ | ⟨hxt, hx⟩
    · rcases hheld _ y hy with ⟨hyi, -⟩ | ⟨hyt, hy⟩
      · rw [hxi, hyi]
      · exact absurd (h.holders _ y _ hy hold) hyt
    · rcases hheld b y hy with ⟨-, rfl⟩ | ⟨-, hy⟩
      · exact absurd (h.holders _ x _ hx hold) hxt
      · exact h.holders b x y hx hy
  · intro b x hx
    dsimp only
    rw [(ha.locks b).1]
    rcases hheld b x hx with ⟨-, rfl⟩ | ⟨-, hx⟩
    · exact h.locked _ _ hold
    · exact h.locked b x hx
  · intro t' hawake
    rcases update_cases (·.awake = true) hawake with ⟨-, hp⟩ | ⟨ht', hold⟩
    · cases hp
    · rw [hothers t' ht'] at hold
      cases hold
  · intro t' cl' hcl
    dsimp only
    rw [(ha.locks _).2]
    rcases update_cases (·.call = some cl') hcl with ⟨-, hp⟩ | ⟨-, hold⟩
    · cases hp
    · exact h.calls t' cl' hold
  · intro t' cl' j hfill
    rcases update_cases (· = .fill cl' j) hfill with ⟨-, hp⟩ | ⟨hne', hold⟩
    · cases hp
    · exact absurd hold (h.elsewhere hr hne' cl' j).1
  · intro t' cl' j hfill
    rcases update_cases (· = .add cl' j) hfill with ⟨-, hp⟩ | ⟨hne', hold⟩
    · cases hp
    · exact absurd hold (h.elsewhere hr hne' cl' j).2
  · dsimp only
    rw [ha.request]
    exact h.write
  · exact ⟨h.ended.1, fun n hn => Nat.lt_succ_of_lt (h.ended.2 n hn)⟩
  · intro d j hj
    dsimp only
    rcases (hmem d j).mp hj with ⟨-, rfl⟩ | hj
    · rw [Function.update_self]
      exact ⟨Nat.lt_succ_self _, fun hmem' => Nat.lt_irrefl _ (h.ended.2 _ hmem')⟩
    · rw [Function.update_of_ne (hne hj)]
      exact ⟨Nat.lt_succ_of_lt (h.idents d j hj).1, (h.idents d j hj).2⟩
  · intro d j d' j' hj hj' heq
    dsimp only at heq
    rcases (hmem d j).mp hj with ⟨-, rfl⟩ | hj
    · rcases (hmem d' j').mp hj' with ⟨-, rfl⟩ | hj'
      · rfl
      · rw [Function.update_self, Function.update_of_ne (hne hj')] at heq
        exact absurd (h.idents d' j' hj').1 (heq ▸ Nat.lt_irrefl _)
    · rcases (hmem d' j').mp hj' with ⟨-, rfl⟩ | hj'
      · rw [Function.update_self, Function.update_of_ne (hne hj)] at heq
        exact absurd (h.idents d j hj).1 (heq ▸ Nat.lt_irrefl _)
      · rw [Function.update_of_ne (hne hj), Function.update_of_ne (hne hj')] at heq
        exact h.distinct d j d' j' hj hj' heq
  · intro n hn
    dsimp only at hn ⊢
    rcases Nat.lt_succ_iff_lt_or_eq.mp hn with hn | rfl
    · rcases h.all n hn with hdone | ⟨d, j, hj, hjn⟩
      · exact Or.inl hdone
      · refine Or.inr ⟨d, j, (hmem d j).mpr (Or.inr hj), ?_⟩
        rw [Function.update_of_ne (hne hj)]
        exact hjn
    · exact Or.inr ⟨_, i, hnew, Function.update_self ..⟩

/-- The request that is served ends. -/
theorem inv_complete (h : Inv c q) {d i : Nat} {up : Bool} {s : State} {l : List Nat}
    (hq : q d = i :: l) (hs : endRequest c.s d up = some s) :
    Inv { c with s := s, completed := c.ident i :: c.completed } (Function.update q d l) := by
  have hchain := h.chain d
  rw [hq] at hchain
  obtain ⟨hrest, hnext, hrequest, hcurrent, hdev, hlock⟩ := endRequest_spec hchain hs
  have hiq : i ∈ q d := hq ▸ List.mem_cons_self
  have hil : i ∉ l := (List.nodup_cons.mp hchain.nodup).1
  -- what stays queued
  have hmem : ∀ d' j, j ∈ Function.update q d l d' ↔ j ∈ q d' ∧ j ≠ i := by
    intro d' j
    by_cases hd : d' = d
    · subst hd
      rw [Function.update_self, hq, List.mem_cons]
      constructor
      · intro hj
        exact ⟨Or.inr hj, fun heq => hil (heq ▸ hj)⟩
      · rintro ⟨hj | hj, hne⟩
        · exact absurd hj hne
        · exact hj
    · rw [Function.update_of_ne hd]
      refine ⟨fun hj => ⟨hj, ?_⟩, fun hj => hj.1⟩
      rintro rfl
      exact hd (h.one hiq hj)
  have hsame : ∀ j, j ≠ i → s.request j = c.s.request j := by
    intro j hj
    rw [hrequest, Function.update_of_ne hj]
  have hfreed : (s.request i).dev = -1 := by
    rw [hrequest, Function.update_self]
  have hheld : ∀ b x, HeldBy { c with s := s, completed := c.ident i :: c.completed }
      (Function.update q d l) b x → HeldBy c q b x ∧ x ≠ .inr i := by
    intro b x hx
    cases x with
    | inl t => exact ⟨hx, Sum.inl_ne_inr⟩
    | inr j =>
      obtain ⟨⟨d', hj⟩, hb⟩ := hx
      obtain ⟨hj, hne⟩ := (hmem d' j).mp hj
      replace hb : (s.request j).bh = some b := hb
      rw [hsame j hne] at hb
      exact ⟨⟨⟨d', hj⟩, hb⟩, fun heq => hne (Sum.inr.inj heq)⟩
  refine ⟨?_, ?_, ?_, ?_, ?_, h.alone, ?_, ?_, ?_, ?_, ?_, ?_, ?_, ?_⟩
  · intro d'
    by_cases hd : d' = d
    · subst hd
      rw [Function.update_self]
      exact hrest
    · rw [Function.update_of_ne hd]
      show Chain s.next (s.current d') (q d')
      rw [hnext, hcurrent d' hd]
      exact h.chain d'
  · intro d' j hj
    obtain ⟨hj, hne⟩ := (hmem d' j).mp hj
    dsimp only
    rw [hsame j hne]
    exact h.queued d' j hj
  · intro j hj hd
    dsimp only at hd ⊢
    have hne : j ≠ i := by
      rintro rfl
      rw [hfreed] at hd
      exact absurd hd (by decide)
    rw [hsame j hne] at hd
    rcases h.placed j hj hd with ⟨d', hjq⟩ | hadd
    · exact Or.inl ⟨d', (hmem d' j).mpr ⟨hjq, hne⟩⟩
    · exact Or.inr hadd
  · exact fun b x y hx hy => h.holders b x y (hheld b x hx).1 (hheld b y hy).1
  · intro b x hx
    obtain ⟨hx, hne⟩ := hheld b x hx
    dsimp only
    rw [hlock b fun hb => hne (h.holders b x _ hx ⟨⟨d, hiq⟩, hb⟩)]
    exact h.locked b x hx
  · intro t cl hcl
    dsimp only
    rw [hdev]
    exact h.calls t cl hcl
  · intro t cl j hfill
    obtain ⟨hlt, hfree⟩ := h.free t cl j hfill
    refine ⟨hlt, ?_⟩
    dsimp only
    by_cases hji : j = i
    · rw [hji, hfreed]
      decide
    · rw [hsame j hji]
      exact hfree
  · intro t cl j hfill
    obtain ⟨hf, hjq⟩ := h.filled t cl j hfill
    have hne : j ≠ i := by
      rintro rfl
      exact hjq d hiq
    have hrj := hsame j hne
    refine ⟨⟨hf.lt, ?_, ?_, ?_, ?_⟩, fun d' hj => hjq d' ((hmem d' j).mp hj).1⟩
    all_goals
      dsimp only
      rw [hrj]
    · exact hf.dev
    · exact hf.major
    · exact hf.cmd
    · exact hf.bh
  · intro j hj hd
    dsimp only at hd ⊢
    have hne : j ≠ i := by
      rintro rfl
      rw [hfreed] at hd
      exact absurd hd (by decide)
    rw [hsame j hne] at hd ⊢
    exact h.write j hj hd
  · refine ⟨List.nodup_cons.mpr ⟨(h.idents d i hiq).2, h.ended.1⟩, fun n hn => ?_⟩
    rcases List.mem_cons.mp hn with rfl | hn
    · exact (h.idents d i hiq).1
    · exact h.ended.2 n hn
  · intro d' j hj
    obtain ⟨hj, hne⟩ := (hmem d' j).mp hj
    refine ⟨(h.idents d' j hj).1, fun hdone => ?_⟩
    rcases List.mem_cons.mp hdone with heq | hdone
    · exact hne (h.distinct d' j d i hj hiq heq)
    · exact (h.idents d' j hj).2 hdone
  · intro d₁ j d₂ j' hj hj' heq
    exact h.distinct d₁ j d₂ j' ((hmem d₁ j).mp hj).1 ((hmem d₂ j').mp hj').1 heq
  · intro n hn
    rcases h.all n hn with hdone | ⟨d', j, hj, hjn⟩
    · exact Or.inl (List.mem_cons_of_mem _ hdone)
    · by_cases hji : j = i
      · rw [← hjn, hji]
        exact Or.inl List.mem_cons_self
      · exact Or.inr ⟨d', j, (hmem d' j).mpr ⟨hj, hji⟩, hjn⟩

/-- The part of `make_request` that a task runs, but for `add_request`. -/
theorem inv_run (h : Inv c q) {t : Nat} {s : State} {p : Phase} {on : Bool} (hr : c.running = some t)
    (hadd : ∀ cl i, c.task t ≠ .add cl i) (hrun : makeRequest c.s (c.task t) = some (s, p, on)) :
    Inv { c with
      s := s, task := Function.update c.task t p, running := if on then some t else none } q := by
  have hcalls := h.calls t
  cases hp : c.task t with
  | idle =>
    rw [hp] at hrun
    cases hrun
    exact inv_keep h hr hadd (fun _ _ hn => by cases hn) (fun hn => by cases hn) (by rw [hp]) (by rw [hp])
      (fun _ _ hn => by cases hn)
  | lock cl =>
    rw [hp] at hrun hcalls
    unfold makeRequest at hrun
    dsimp only at hrun
    split at hrun
    · cases hrun
      exact inv_keep h hr hadd (fun _ _ hn => by cases hn) (fun hn => by cases hn) (by rw [hp]) (by rw [hp])
        (fun _ _ hn => by cases hn)
    · next hfree =>
      cases hrun
      -- what is held is locked, and the buffer is not
      have hnobody : ∀ x, ¬ HeldBy c q cl.bh x := fun x hx => hfree (h.locked cl.bh x hx)
      refine inv_task h (Or.inr hr) ⟨rfl, rfl, rfl⟩
        (fun b => setBuffer_dev c.s cl.bh { c.s.bh cl.bh with lock := true } rfl b) hadd
        (fun _ _ hn => by cases hn) (fun _ => rfl) hcalls (fun _ _ hn => by cases hn) ?_ ?_ ?_
      · intro b hb x _
        cases hb
        exact hnobody x
      · intro b hb
        cases hb
        simp [State.setBuffer]
      · intro b x _ hx
        refine setBuffer_lock_of_ne _ ?_
        rintro rfl
        exact hnobody x hx
  | check cl =>
    rw [hp] at hrun
    unfold makeRequest at hrun
    dsimp only at hrun
    split at hrun
    · cases hrun
      exact inv_leave h hr hadd (by rw [hp]; rfl)
    · cases hrun
      exact inv_keep h hr hadd (fun _ _ hn => by cases hn) (fun hn => by cases hn) (by rw [hp]; rfl)
        (by rw [hp]; rfl) (fun _ _ hn => by cases hn)
  | scan cl =>
    rw [hp] at hrun
    unfold makeRequest at hrun
    dsimp only at hrun
    cases hfind : c.s.findSlot (limit cl.rw) with
    | some i =>
      rw [hfind] at hrun
      cases hrun
      refine inv_keep h hr hadd (fun _ _ hn => by cases hn) (fun _ => rfl) (by rw [hp]; rfl) (by rw [hp]; rfl) ?_
      intro cl' j hn
      cases hn
      exact findSlot_spec hfind
    | none =>
      rw [hfind] at hrun
      dsimp only at hrun
      split at hrun
      · cases hrun
        exact inv_leave h hr hadd (by rw [hp]; rfl)
      · cases hrun
        exact inv_keep h hr hadd (fun _ _ hn => by cases hn) (fun hn => by cases hn) (by rw [hp]) (by rw [hp])
          (fun _ _ hn => by cases hn)
  | fill cl i =>
    rw [hp] at hrun
    cases hrun
    exact inv_fill h hr hp
  | add cl i => exact absurd hp (hadd cl i)

theorem begin_cases (s : State) (rw' : Rw) (b : Nat) : begin s rw' b = .idle ∨
    begin s rw' b = .lock ⟨major (s.bh b).dev, rw'.plain, rw'.ahead, b⟩ := by
  unfold begin
  split
  · exact Or.inl rfl
  · exact Or.inr rfl

theorem inv_step (h : Inv c q) (hs : Step c c') : ∃ q', Inv c' q' := by
  cases hs with
  | call t rw' b hr ht =>
    refine ⟨q, ?_⟩
    have hadd : ∀ cl i, c.task t ≠ .add cl i := by
      intro cl i hn
      rw [ht] at hn
      cases hn
    have hsame : ∀ b x, x ≠ .inl t → HeldBy c q b x → (c.s.bh b).lock = (c.s.bh b).lock :=
      fun _ _ _ _ => rfl
    rcases begin_cases c.s rw' b with hb | hb
    · rw [hb]
      exact inv_task h (Or.inl hr) ⟨rfl, rfl, rfl⟩ (fun _ => rfl) hadd (fun _ _ hn => by cases hn)
        (fun _ => rfl) (fun _ hn => by cases hn) (fun _ _ hn => by cases hn)
        (fun _ hn => by cases hn) (fun _ hn => by cases hn) hsame
    · rw [hb]
      refine inv_task h (Or.inl hr) ⟨rfl, rfl, rfl⟩ (fun _ => rfl) hadd (fun _ _ hn => by cases hn)
        (fun _ => rfl) ?_ (fun _ _ hn => by cases hn)
        (fun _ hn => by cases hn) (fun _ hn => by cases hn) hsame
      intro cl hcl
      cases hcl
      refine ⟨rfl, ?_⟩
      cases rw' with
      | read => exact Or.inl rfl
      | write => exact Or.inr rfl
      | reada => exact Or.inl rfl
      | writea => exact Or.inr rfl
  -- nothing changes but which task runs
  | resume t hr =>
    refine ⟨q, { h with alone := fun t' hawake => ?_ }⟩
    have hrun := h.alone t' hawake
    rw [hr] at hrun
    cases hrun
  | run t s p on hr hadd hrun => exact ⟨q, inv_run h hr hadd hrun⟩
  | add t cl i s p on hr ht hrun =>
    obtain ⟨hfilled, hiq⟩ := h.filled t cl i ht
    obtain ⟨s', q₁, hadd, ha⟩ := addRequest_spec (h.chain cl.major)
      (fun j hj => (h.queued _ j hj).1) (hiq cl.major)
    rw [ht] at hrun
    unfold makeRequest at hrun
    dsimp only at hrun
    rw [hadd] at hrun
    cases hrun
    exact ⟨_, inv_add h hr ht ha⟩
  | complete d up i s hi hs =>
    have hchain := h.chain d
    cases hq : q d with
    | nil =>
      rw [hq, chain_nil, hi] at hchain
      cases hchain
    | cons j l =>
      rw [hq] at hchain
      obtain rfl : i = j := Option.some.inj (hi.symm.trans hchain.1)
      exact ⟨_, inv_complete h hq hs⟩
  | touch b dirt up =>
    refine ⟨q, ?_⟩
    have hlock : ∀ b', ((c.s.setBuffer b { c.s.bh b with dirt := dirt, uptodate := up }).bh b').lock =
        (c.s.bh b').lock := by
      intro b'
      by_cases hb : b' = b
      · subst hb
        simp [State.setBuffer]
      · exact setBuffer_lock_of_ne _ hb
    refine { h with locked := fun b' x hx => ?_, calls := fun t cl hcl => ?_, filled := ?_ }
    · exact (hlock b').trans (h.locked b' x hx)
    · have hd := setBuffer_dev c.s b { c.s.bh b with dirt := dirt, uptodate := up } rfl cl.bh
      dsimp only
      rw [hd]
      exact h.calls t cl hcl
    · intro t cl i hfill
      obtain ⟨hf, hq⟩ := h.filled t cl i hfill
      exact ⟨⟨hf.lt, hf.dev, hf.major, hf.cmd, hf.bh⟩, hq⟩

theorem inv_fresh (h : Fresh c) : Inv c fun _ => [] := by
  obtain ⟨hslots, hcurrent, -, htask, hrunning, hissued, hcompleted⟩ := h
  have hnone : ∀ b x, ¬ HeldBy c (fun _ => []) b x := by
    intro b x hx
    cases x with
    | inl t =>
      replace hx : (c.task t).holds = some b := hx
      rw [htask] at hx
      cases hx
    | inr i =>
      obtain ⟨⟨d, hi⟩, -⟩ := hx
      cases hi
  refine ⟨hcurrent, fun d i hi => (by cases hi), ?_, fun b x _ hx => absurd hx (hnone b x),
    fun b x hx => absurd hx (hnone b x), ?_, ?_, ?_, ?_, ?_, ?_, fun d i hi => (by cases hi),
    fun d i _ _ hi => (by cases hi), ?_⟩
  · intro i hi hd
    rw [hslots i hi] at hd
    exact absurd hd (by decide)
  · intro t ht
    rw [htask] at ht
    cases ht
  · intro t cl ht
    rw [htask] at ht
    cases ht
  · intro t cl i ht
    rw [htask] at ht
    cases ht
  · intro t cl i ht
    rw [htask] at ht
    cases ht
  · intro i hi hd
    rw [hslots i hi] at hd
    exact absurd hd (by decide)
  · rw [hcompleted]
    exact ⟨List.nodup_nil, fun n hn => by cases hn⟩
  · intro n hn
    rw [hissued] at hn
    cases hn

theorem inv_reach {c₀ : Config} (h₀ : Fresh c₀) (hrun : Reach c₀ c) : ∃ q, Inv c q := by
  induction hrun with
  | refl => exact ⟨_, inv_fresh h₀⟩
  | tail _ hs ih =>
    obtain ⟨q, h⟩ := ih
    exact inv_step h hs

/-- The driver finds its request locked, and of its device. -/
theorem initRequest_ok (h : Inv c q) (d : Nat) : initRequest c.s d = .ok () := by
  have hchain := h.chain d
  unfold initRequest
  cases hq : q d with
  | nil =>
    rw [hq, chain_nil] at hchain
    rw [hchain]
  | cons i l =>
    rw [hq] at hchain
    have hiq : i ∈ q d := hq ▸ List.mem_cons_self
    obtain ⟨-, -, hmajor, b, hb⟩ := h.queued d i hiq
    rw [hchain.1]
    dsimp only
    rw [if_neg (not_not.mpr hmajor), hb]
    dsimp only
    rw [if_pos (h.locked b (.inr i) ⟨⟨d, hiq⟩, hb⟩)]

/-- Whatever calls of `make_request` and ends of requests are interleaved, `q` are the
queues: a slot with a device is on one of them, once, unless the task that runs has just
filled it; a queued slot has a device, and its own buffer, locked; writes have the lower
slots; each request that was added waits or has ended, once; the drivers do not panic,
and the task that runs goes on. -/
theorem request_slots {c₀ c : Config} (h₀ : Fresh c₀) (hrun : Reach c₀ c) : ∃ q : Nat → List Nat,
    (∀ d, Chain c.s.next (c.s.current d) (q d)) ∧
    (∀ i, i < nrRequest → 0 ≤ (c.s.request i).dev →
      (∃! d, i ∈ q d) ∧ (∀ d, (q d).count i ≤ 1) ∨
        (∀ d, i ∉ q d) ∧ ∃ t cl, c.running = some t ∧ c.task t = .add cl i) ∧
    (∀ d i, i ∈ q d → i < nrRequest ∧ 0 ≤ (c.s.request i).dev ∧
      ∃ b, (c.s.request i).bh = some b ∧ (c.s.bh b).lock = true ∧
        ∀ d' j, j ∈ q d' → (c.s.request j).bh = some b → j = i) ∧
    (∀ i, i < nrRequest → 0 ≤ (c.s.request i).dev → (c.s.request i).cmd = .write → i ≤ 20) ∧
    (c.completed.Nodup ∧ (∀ d i, i ∈ q d → c.ident i ∉ c.completed) ∧
      ∀ n, n < c.issued → n ∈ c.completed ∨ ∃ d i, i ∈ q d ∧ c.ident i = n ∧
        ∀ d' j, j ∈ q d' → c.ident j = n → j = i) ∧
    (∀ d, initRequest c.s d = .ok ()) ∧
    ∀ t, c.running = some t → makeRequest c.s (c.task t) ≠ none := by
  obtain ⟨q, h⟩ := inv_reach h₀ hrun
  refine ⟨q, h.chain, ?_, ?_, ?_, ⟨h.ended.1, fun d i hi => (h.idents d i hi).2, ?_⟩,
    initRequest_ok h, ?_⟩
  · intro i hi hd
    by_cases hq : ∃ d, i ∈ q d
    · obtain ⟨d, hid⟩ := hq
      exact Or.inl ⟨⟨d, hid, fun d' hid' => h.one hid hid'⟩,
        fun d' => List.nodup_iff_count_le_one.mp (h.chain d').nodup i⟩
    · rcases h.placed i hi hd with hq' | ⟨t, cl, ht⟩
      · exact absurd hq' hq
      · exact Or.inr ⟨fun d hid => hq ⟨d, hid⟩, t, cl, h.alone t (by rw [ht]; rfl), ht⟩
  · intro d i hi
    obtain ⟨hlt, hd, -, b, hb⟩ := h.queued d i hi
    have hheld : HeldBy c q b (.inr i) := ⟨⟨d, hi⟩, hb⟩
    refine ⟨hlt, hd, b, hb, h.locked b _ hheld, fun d' j hj hjb => ?_⟩
    exact Sum.inr.inj (h.holders b (.inr j) (.inr i) ⟨⟨d', hj⟩, hjb⟩ hheld)
  · intro i hi hd hw
    rcases h.write i hi hd with hread | ⟨-, hlt⟩
    · rw [hread] at hw
      cases hw
    · exact Nat.le_of_lt_succ hlt
  · intro n hn
    rcases h.all n hn with hdone | ⟨d, i, hi, rfl⟩
    · exact Or.inl hdone
    · exact Or.inr ⟨d, i, hi, rfl, fun d' j hj heq => h.distinct d' j d i hj hi heq⟩
  · intro t hr
    cases hp : c.task t with
    | idle => exact Option.some_ne_none _
    | lock cl =>
      unfold makeRequest
      dsimp only
      split <;> exact Option.some_ne_none _
    | check cl =>
      unfold makeRequest
      dsimp only
      split <;> exact Option.some_ne_none _
    | scan cl =>
      unfold makeRequest
      dsimp only
      cases c.s.findSlot (limit cl.rw) with
      | some i => exact Option.some_ne_none _
      | none =>
        dsimp only
        split <;> exact Option.some_ne_none _
    | fill cl i => exact Option.some_ne_none _
    | add cl i =>
      obtain ⟨-, hiq⟩ := h.filled t cl i hp
      obtain ⟨s', q₁, hadd, -⟩ := addRequest_spec (h.chain cl.major)
        (fun j hj => (h.queued _ j hj).1) (hiq cl.major)
      unfold makeRequest
      dsimp only
      rw [hadd]
      exact Option.some_ne_none _

/-- A machine with its disk. -/
def machine : Config where
  s := { idleDisk with bh := fun b => ⟨0x301, b, false, false, false⟩ }
  task _ := .idle
  running := none
  issued := 0
  ident _ := 0
  completed := []

/-- The task that runs makes its next step. -/
def Config.advance (c : Config) : Option Config :=
  c.running.bind fun t => (makeRequest c.s (c.task t)).map fun r =>
    let c' : Config := { c with
      s := r.1, task := Function.update c.task t r.2.1, running := if r.2.2 then some t else none }
    match c.task t with
    | .add _ i => { c' with issued := c.issued + 1, ident := Function.update c.ident i c.issued }
    | _ => c'

theorem step_advance {c c' : Config} (h : c.advance = some c') : Step c c' := by
  obtain ⟨t, hr, h⟩ := Option.bind_eq_some_iff.mp h
  obtain ⟨⟨s, p, on⟩, hmake, h⟩ := Option.map_eq_some_iff.mp h
  cases hp : c.task t with
  | add cl i =>
    rw [hp] at h
    subst h
    exact .add t cl i s p on hr hp hmake
  | _ =>
    rw [hp] at h
    subst h
    exact .run t s p on hr (fun cl i hadd => by rw [hp] at hadd; cases hadd) hmake

/-- A task calls `ll_rw_block`, and goes on until its request is queued. -/
def Config.requested (c : Config) (t : Nat) (rw : Rw) (b : Nat) : Option Config :=
  let called : Config := { c with task := Function.update c.task t (begin c.s rw b), running := some t }
  called.advance.bind fun c => c.advance.bind fun c => c.advance.bind fun c => c.advance.bind Config.advance

theorem reach_requested {c c' : Config} {t : Nat} {rw : Rw} {b : Nat} (hr : c.running = none)
    (ht : c.task t = .idle) (h : c.requested t rw b = some c') : Reach c c' := by
  obtain ⟨c₁, h₁, h⟩ := Option.bind_eq_some_iff.mp h
  obtain ⟨c₂, h₂, h⟩ := Option.bind_eq_some_iff.mp h
  obtain ⟨c₃, h₃, h⟩ := Option.bind_eq_some_iff.mp h
  obtain ⟨c₄, h₄, h₅⟩ := Option.bind_eq_some_iff.mp h
  exact .tail (.tail (.tail (.tail (.tail (.single (.call t rw b hr ht)) (step_advance h₁)) (step_advance h₂))
    (step_advance h₃)) (step_advance h₄)) (step_advance h₅)

/-- Block 9 is changed. -/
def Config.changed (c : Config) : Config :=
  { c with s := c.s.setBuffer 9 { c.s.bh 9 with dirt := true, uptodate := true } }

/-- The request at the head ends. -/
def Config.ended (c : Config) : Option Config :=
  (c.s.current 3).bind fun i => (endRequest c.s 3 true).map fun s =>
    { c with s := s, completed := c.ident i :: c.completed }

theorem step_ended {c c' : Config} (h : c.ended = some c') : Step c c' := by
  obtain ⟨i, hi, h⟩ := Option.bind_eq_some_iff.mp h
  obtain ⟨s, hs, rfl⟩ := Option.map_eq_some_iff.mp h
  exact .complete 3 true i s hi hs

/-- A task reads block 7, another changes block 9 and writes it, and the read ends. -/
def readAndWrite : Option Config :=
  (machine.requested 1 .read 7).bind fun c => (c.changed.requested 2 .write 9).bind Config.ended

/-- The write is still queued. -/
theorem request_slots_two : ∃ c, Reach machine c ∧ c.issued = 2 ∧ c.completed = [0] ∧
    (∃ q : Nat → List Nat, (∀ d, Chain c.s.next (c.s.current d) (q d)) ∧ ∃ d i, i ∈ q d ∧ c.ident i = 1) ∧
    ∀ d, initRequest c.s d = .ok () := by
  have hfresh : Fresh machine := ⟨fun _ _ => rfl, fun _ => rfl, fun _ => rfl, fun _ => rfl, rfl, rfl, rfl⟩
  have hend : readAndWrite.map (fun c => (c.issued, c.completed)) = some (2, [0]) := by decide +kernel
  have hidle : (machine.requested 1 .read 7).map (fun c => (c.running, c.task 2)) = some (none, .idle) := rfl
  obtain ⟨c, hc, hend⟩ := Option.map_eq_some_iff.mp hend
  obtain ⟨hissued, hcompleted⟩ := Prod.mk.inj hend
  obtain ⟨c₁, h₁, hc⟩ := Option.bind_eq_some_iff.mp hc
  obtain ⟨c₂, h₂, h₃⟩ := Option.bind_eq_some_iff.mp hc
  rw [h₁] at hidle
  obtain ⟨hrest, htask⟩ := Prod.mk.inj (Option.some.inj hidle)
  have hread : Reach machine c₁ := reach_requested rfl rfl h₁
  have hwrite : Reach c₁.changed c₂ := reach_requested hrest htask h₂
  have hreach : Reach machine c := ((hread.tail (.touch 9 true true)).trans hwrite).tail (step_ended h₃)
  obtain ⟨q, hchain, -, -, -, ⟨-, -, hall⟩, hinit, -⟩ := request_slots hfresh hreach
  refine ⟨c, hreach, hissued, hcompleted, ⟨q, hchain, ?_⟩, hinit⟩
  rcases hall 1 (by rw [hissued]; decide) with hdone | ⟨d, i, hi, hident, -⟩
  · rw [hcompleted] at hdone
    exact absurd hdone (by decide)
  · exact ⟨d, i, hi, hident⟩

end Linux011.BlkDrv
