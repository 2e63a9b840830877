import Linux011.Lib.Alone
import Linux011.Fs.CacheSpec

/-!
# Buffer cache — a pass of `sync_dev` alone

The loop of `sync_dev` and `sys_sync` over the buffers, run by a task that is alone.
Nothing becomes dirty behind it: it locks buffers, queues writes and waits. What
such steps leave true is a parameter (`Undisturbed`).

* `makeRequest_alone` — what holds once the buffer is locked, and after its request;
* `writeBlock_alone` — after `ll_rw_block(WRITE, bh)` the buffer is clean, if its device
  has a driver;
* `syncPass_alone` — after the pass all buffers concerned are.
-/

namespace Linux011.Fs

open Linux011.Lib
open Linux011.Lib.Kernel

/-- `P` is not disturbed by a pass over `N` buffers: it fixes the drivers and the devices of
the buffers, and neither interrupts nor locks nor writes to devices with a driver change it. -/
structure Undisturbed (fails : Prop) (allow : Tag → Cache → Prop) (fn : Nat → Bool)
    (dv : Nat → UInt16) (N : Nat) (P : Cache → Prop) : Prop where
  table : ∀ s, P s → s.requestFn = fn
  keys  : ∀ s, P s → s.buf.dev = dv
  nr    : ∀ s, P s → s.buf.nrBuffers = N
  env   : ∀ s s', P s → Completes fails s s' → P s'
  lock  : ∀ s bh b, P s → P (s.setLock bh b)
  write : ∀ s i bh, P s → bh < N → HasDriver fn (dv bh) → i < nrRequest → s.request i = none →
    allow (.request true bh) s → P (s.addRequest i true bh)

/-- The buffers below `i` that the pass is about are clean, if they can be. -/
def Cleaned (fn : Nat → Bool) (dv : Nat → UInt16) (dev : Option UInt16) (N i : Nat) (s : Cache) :
    Prop :=
  ∀ x, x < i → x < N → dev.all (dv x = ·) = true → HasDriver fn (dv x) → s.buf.dirt x = false

variable {fails : Prop} {ops : Nat → Prog Cache Tag Proc Ret → Prop} {allow : Tag → Cache → Prop}
  {fn : Nat → Bool} {dv : Nat → UInt16} {N n : Nat} {P : Cache → Prop}

/-- Interrupts change neither the drivers nor what is mounted. -/
theorem completes_static {s s' : Cache} (h : Completes fails s s') :
    s'.requestFn = s.requestFn ∧ s'.mounted = s.mounted := by
  obtain ⟨i, r, u, bytes, -, -, -, rfl⟩ := h
  have E := ended s i r u bytes
  exact ⟨E.requestFn, E.mounted⟩

theorem completes_clean {s s' : Cache} {bh : Nat} (h : s.buf.dirt bh = false)
    (he : Completes fails s s') : s'.buf.dirt bh = false := by
  rw [(completes_count he).2]
  exact h

theorem lasts_clean (bh : Nat) : Lasts (kernel fails ops) fun s => s.buf.dirt bh = false :=
  fun _ _ h he => completes_clean h he

theorem Undisturbed.lasts (U : Undisturbed fails allow fn dv N P) : Lasts (kernel fails ops) P :=
  U.env

/-- What is clean stays clean. -/
theorem Undisturbed.cleaned (U : Undisturbed fails allow fn dv N P) (dev : Option UInt16)
    (i : Nat) :
    Undisturbed fails allow fn dv N fun s => P s ∧ Cleaned fn dv dev N i s := by
  refine ⟨fun s h => U.table s h.1, fun s h => U.keys s h.1, fun s h => U.nr s h.1, ?_, ?_, ?_⟩
  · intro s s' h he
    refine ⟨U.env s s' h.1 he, fun x hx hN hdev hd => ?_⟩
    rw [(completes_count he).2]
    exact h.2 x hx hN hdev hd
  · exact fun s bh b h => ⟨U.lock s bh b h.1, h.2⟩
  · intro s j bh h hbh hdriver hj hfree ha
    refine ⟨U.write s j bh h.1 hbh hdriver hj hfree ha, fun x hx hN hdev hd => ?_⟩
    show Function.update s.buf.dirt bh false x = false
    rw [Function.update_apply]
    split
    · rfl
    · exact h.2 x hx hN hdev hd

/-! ## Requests -/

theorem lasts_unlocked (bh : Nat) : Lasts (kernel fails ops) fun s => s.buf.lock bh = false :=
  fun _ _ h he => completes_lock he h

theorem testLock_alone (hP : Lasts (kernel fails ops) P) (bh : Nat) :
    Alone (kernel fails ops) allow n (Code.read fun s => s.buf.lock bh) P
      fun locked s => P s ∧ (locked = false → s.buf.lock bh = false) := by
  refine alone_read (fun locked => ?_) fun s h => ⟨h, id⟩
  exact fun s s' h he => ⟨hP s s' h.1 he, fun hl => completes_lock he (h.2 hl)⟩

theorem waitOnBuffer_alone (hP : Lasts (kernel fails ops) P) (bh : Nat) :
    Alone (kernel fails ops) allow n (waitOnBuffer bh) P
      fun _ s => P s ∧ s.buf.lock bh = false := by
  refine alone_bind (R := fun _ s => P s ∧ s.buf.lock bh = false) ?_
    fun _ => alone_pure fun _ h => h
  refine alone_loop ?_ n
  intro n ih
  refine alone_bind (testLock_alone hP bh) fun locked => alone_ite ?_ ?_
  · exact fun _ => alone_bind alone_sleep fun _ => ih.pre fun _ h => h.1
  · exact fun hl => alone_pure fun _ h => ⟨h.1, h.2 (by simpa using hl)⟩

theorem lockBuffer_alone {H : Cache → Prop} (hP : Lasts (kernel fails ops) P)
    (hH : Lasts (kernel fails ops) H) {bh : Nat}
    (hlock : ∀ s, P s → s.buf.lock bh = false → H (s.setLock bh true)) :
    Alone (kernel fails ops) allow n (lockBuffer bh) P fun _ => H := by
  refine alone_bind (R := fun _ => H) ?_ fun _ => alone_pure fun _ h => h
  refine alone_loop ?_ n
  intro n ih
  refine alone_bind (testLock_alone hP bh) fun locked => alone_ite ?_ ?_
  · exact fun _ => alone_bind alone_sleep fun _ => ih.pre fun _ h => h.1
  · intro hl
    refine alone_bind (R := fun _ => H) ?_ fun _ => alone_pure fun _ h => h
    exact alone_modify hH fun s h => hlock s h.1 (h.2 (by simpa using hl))

/-- The request is queued in a free slot, sooner or later. -/
theorem queueRequest_alone {H Q : Cache → Prop} (hH : Lasts (kernel fails ops) H)
    (hQ : Lasts (kernel fails ops) Q) (w : Bool) {bh : Nat}
    (queue : ∀ s i, H s → i < nrRequest → s.request i = none → allow (.request w bh) s →
      Q (s.addRequest i w bh)) :
    Alone (kernel fails ops) allow n (Code.call (.queueRequest w false bh)) H fun _ => Q := by
  refine alone_loop ?_ n
  intro n ih
  have hslot : ∀ slot : Option Nat, Lasts (kernel fails ops) fun s => H s ∧
      ∀ i, slot = some i → i < nrRequest ∧ s.request i = none := by
    intro slot s s' h he
    exact ⟨hH s s' h.1 he, fun i hi => ⟨(h.2 i hi).1, completes_request he (h.2 i hi).2⟩⟩
  refine alone_bind (alone_read hslot fun s h => ⟨h, fun i hi => ?_⟩) fun slot => ?_
  · obtain ⟨hlt, hfree⟩ := emptyRequest_spec hi
    refine ⟨Nat.lt_of_lt_of_le hlt ?_, hfree⟩
    split <;> decide
  · cases slot with
    | none =>
      refine alone_ite (fun h => absurd h (by decide)) fun _ => ?_
      exact alone_bind (alone_sleep.pre fun _ h => h) fun _ => ih.pre fun _ h => h.1
    | some i =>
      refine alone_bind (R := fun _ => Q) ?_ fun _ => alone_pure fun _ h => h
      refine alone_atom hQ ?_
      intro s h ha
      obtain ⟨hlt, hfree⟩ := h.2 i rfl
      exact queue s i h.1 hlt hfree ha

/-- What `make_request` has nothing to do for. -/
def Cache.useless (s : Cache) (w : Bool) (bh : Nat) : Bool :=
  (w && !s.buf.dirt bh) || (!w && s.buf.uptodate bh)

/-- `make_request` for a read or a write: `H` holds once the buffer is locked, `U` if there is
nothing to do. -/
theorem makeRequest_alone {H U Q : Cache → Prop} (w : Bool) {bh : Nat}
    (hP : Lasts (kernel fails ops) P) (hH : Lasts (kernel fails ops) H)
    (hU : Lasts (kernel fails ops) U) (hQ : Lasts (kernel fails ops) Q)
    (lock : ∀ s, P s → s.buf.lock bh = false → H (s.setLock bh true))
    (skip : ∀ s, H s → s.useless w bh = true → U s)
    (unlock : ∀ s, U s → Q (s.setLock bh false))
    (queue : ∀ s i, H s → i < nrRequest → s.request i = none → allow (.request w bh) s →
      Q (s.addRequest i w bh)) :
    Alone (kernel fails ops) allow n (makeRequest (if w then .write else .read) bh) P
      fun _ => Q := by
  have hbody : ∀ rw : Rw, decide (rw = .reada ∨ rw = .writea) = false →
      decide (rw = .write ∨ rw = .writea) = w →
      Alone (kernel fails ops) allow n (makeRequest rw bh) P fun _ => Q := by
    intro rw hahead hw
    unfold makeRequest
    rw [hahead, hw]
    refine alone_bind (alone_read (fun _ => hP) fun _ h => h) fun locked => ?_
    refine alone_ite (fun h => absurd h.1 (by decide)) fun _ => ?_
    refine alone_bind (lockBuffer_alone hP hH lock) fun _ => ?_
    refine alone_bind (R := fun useless s => H s ∧ (useless = true → U s)) ?_
      fun useless => alone_ite ?_ ?_
    · refine alone_read (fun useless => ?_) fun s h => ⟨h, skip s h⟩
      exact fun s s' h he => ⟨hH s s' h.1 he, fun hu => hU s s' (h.2 hu) he⟩
    · exact fun hu => alone_modify hQ fun s h => unlock s (h.2 hu)
    · intro _
      refine alone_bind ((queueRequest_alone hH hQ w queue).pre fun _ h => h.1) fun _ => ?_
      exact alone_pure fun _ h => h
  cases w with
  | true => exact hbody .write rfl rfl
  | false => exact hbody .read rfl rfl

/-- `ll_rw_block` for a read or a write. -/
theorem llRwBlock_alone {Q : Cache → Prop} (rw : Rw) {bh : Nat} (hP : Lasts (kernel fails ops) P)
    (driven : Alone (kernel fails ops) allow n (makeRequest rw bh)
      (fun s => P s ∧ HasDriver s.requestFn (s.buf.dev bh)) fun _ => Q)
    (skip : ∀ s, P s → ¬ HasDriver s.requestFn (s.buf.dev bh) → Q s) :
    Alone (kernel fails ops) allow n (llRwBlock rw bh) P fun _ => Q := by
  refine alone_bind (R := fun driver s => P s ∧
    (driver = true ↔ HasDriver s.requestFn (s.buf.dev bh))) ?_ fun driver => alone_when ?_ ?_
  · refine alone_read (fun driver => ?_) fun s h => ⟨h, by simp [HasDriver]⟩
    intro s s' h he
    refine ⟨hP s s' h.1 he, ?_⟩
    rw [(completes_static he).1, (sameKeys_of_eq (queues_completes he)).1]
    exact h.2
  · exact fun hd => driven.pre fun s h => ⟨h.1, h.2.mp hd⟩
  · intro s h hd
    refine skip s h.1 fun hdriver => ?_
    rw [h.2.mpr hdriver] at hd
    cases hd

/-- **`ll_rw_block(WRITE, bh)`** leaves the buffer clean, if there is a driver. -/
theorem writeBlock_alone (U : Undisturbed fails allow fn dv N P) {bh : Nat} (hbh : bh < N) :
    Alone (kernel fails ops) allow n (llRwBlock .write bh) P
      fun _ s => P s ∧ (HasDriver fn (dv bh) → s.buf.dirt bh = false) := by
  have hclean : Lasts (kernel fails ops) fun s =>
      P s ∧ (HasDriver fn (dv bh) → s.buf.dirt bh = false) :=
    fun s s' h he => ⟨U.env s s' h.1 he, fun hd => completes_clean (h.2 hd) he⟩
  have hkey : ∀ s, P s → (HasDriver s.requestFn (s.buf.dev bh) ↔ HasDriver fn (dv bh)) := by
    intro s h
    rw [U.table s h, U.keys s h]
  refine llRwBlock_alone .write U.lasts ?_
    fun s h hd => ⟨h, fun hd' => absurd ((hkey s h).mpr hd') hd⟩
  refine alone_fact (p := HasDriver fn (dv bh)) (fun hd => ?_) fun s h => (hkey s h.1).mp h.2
  refine (makeRequest_alone (P := P) (H := P) true U.lasts U.lasts hclean hclean ?_ ?_ ?_ ?_).pre
    fun _ h => h.1
  · exact fun s h _ => U.lock s bh true h
  · exact fun s h hu => ⟨h, fun _ => by simpa [Cache.useless] using hu⟩
  · exact fun s h => ⟨U.lock s bh false h.1, h.2⟩
  · exact fun s i h hi hfree ha =>
      ⟨U.write s i bh h hbh hd hi hfree ha, fun _ => Function.update_self ..⟩

/-! ## Passes -/

/-- **A pass over the buffers** of one device, or of all, leaves those clean that can be. -/
theorem syncPass_alone (U : Undisturbed fails allow fn dv N P) (dev : Option UInt16) :
    ∀ n i, Alone (kernel fails ops) allow n (Code.call (.syncPass dev i))
      (fun s => P s ∧ Cleaned fn dv dev N i s) fun _ s => P s ∧ Cleaned fn dv dev N N s := by
  refine alone_calls ?_
  intro n ih i
  have hlasts : Lasts (kernel fails ops) fun s => P s ∧ Cleaned fn dv dev N i s :=
    (U.cleaned dev i).env
  refine alone_bind (R := fun b s => (P s ∧ Cleaned fn dv dev N i s) ∧
    b.1 = dev.all (dv i = ·) ∧ (b.2 = true ↔ i < N)) ?_ ?_
  · refine alone_read (fun _ => hlasts.and (lasts_fact _)) fun s h => ⟨h, ?_⟩
    rw [U.keys s h.1, U.nr s h.1]
    exact ⟨rfl, by simp⟩
  · rintro ⟨here, more⟩
    refine alone_fact (p := here = dev.all (dv i = ·) ∧ (more = true ↔ i < N)) ?_ fun _ h => h.2
    rintro ⟨rfl, hmore⟩
    refine alone_ite ?_ fun hlt => alone_ite ?_ ?_
    · intro hend
      refine alone_pure fun s h => ⟨h.1.1, fun x hx _ => h.1.2 x ?_ hx⟩
      have hle : ¬ i < N := fun hi => hend (hmore.mpr hi)
      omega
    · intro hother
      refine (ih (i + 1)).pre fun s h => ⟨h.1.1, fun x hx hN hdev hd => ?_⟩
      rcases Nat.lt_succ_iff_lt_or_eq.mp hx with hx | rfl
      · exact h.1.2 x hx hN hdev hd
      · exact absurd hdev hother
    · intro hhere
      have hi : i < N := hmore.mp (by simpa using hlt)
      have hdev : dev.all (dv i = ·) = true := by simpa using hhere
      refine alone_bind (R := fun _ s => P s ∧ Cleaned fn dv dev N i s)
        ((waitOnBuffer_alone hlasts i).conseq (fun _ h => h.1) fun _ _ h => h.1) fun _ => ?_
      refine alone_bind (R := fun dirt s => (P s ∧ Cleaned fn dv dev N i s) ∧
        (dirt = false → s.buf.dirt i = false)) ?_ fun dirt => ?_
      · refine alone_read (fun dirt => ?_) fun s h => ⟨h, fun hd => ?_⟩
        · intro s s' h he
          exact ⟨hlasts s s' h.1 he, fun hd => completes_clean (h.2 hd) he⟩
        · rw [U.keys s h.1, hdev] at hd
          simpa using hd
      -- the buffer is clean now, if its device has a driver
      · have hnext : ∀ s, (P s ∧ Cleaned fn dv dev N i s) ∧
            (HasDriver fn (dv i) → s.buf.dirt i = false) → P s ∧ Cleaned fn dv dev N (i + 1) s := by
          intro s h
          refine ⟨h.1.1, fun x hx hN hdev hd => ?_⟩
          rcases Nat.lt_succ_iff_lt_or_eq.mp hx with hx | rfl
          · exact h.1.2 x hx hN hdev hd
          · exact h.2 hd
        refine alone_bind (alone_when ?_ ?_) fun _ => (ih (i + 1)).pre hnext
        · exact fun _ => (writeBlock_alone (U.cleaned dev i) hi).pre fun _ h => h.1
        · exact fun s h hd => ⟨h.1, fun _ => h.2 hd⟩

/-- The same from the first buffer on. -/
theorem syncPass_cleans (U : Undisturbed fails allow fn dv N P) (dev : Option UInt16) (n : Nat) :
    Alone (kernel fails ops) allow n (Code.call (.syncPass dev 0)) P
      fun _ s => P s ∧ Cleaned fn dv dev N N s :=
  (syncPass_alone U dev n 0).pre fun _ h => ⟨h, fun x hx => absurd hx (Nat.not_lt_zero x)⟩

end Linux011.Fs
