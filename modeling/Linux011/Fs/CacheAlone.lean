import Linux011.Lib.Alone
import Linux011.Fs.BlockDev

/-!
# Buffer cache — a task alone

What a task finds that runs alone, and what it adds. The other tasks sleep; the
references they hold stay where they are, and the task has its own, at most two at a
time.

* `Orderly` — the states such a task may begin in;
* `Users` — every count is what it was, and the references of the task;
* `Users.acquire`, `Users.release`, `Users.takeover` — what the task does;
* `Users.key` — a block that is held stays in its buffer.
-/

namespace Linux011.Fs

open Linux011.Lib
open Linux011.Lib.Kernel

/-- A cache in order: a request is for a locked buffer and for the block it carries, no
buffer has two, and the counts, which are unsigned chars, have room for two more users.
There is no driver for major 0, `no_dev`. -/
structure Orderly (N : Nat) (s : Cache) : Prop where
  shape   : Shape N s
  noDev   : s.requestFn 0 = false
  room    : ∀ h, h < N → s.buf.count h + 2 ≤ 255
  pending : ∀ i r, s.request i = some r → r.bh < N ∧ s.buf.lock r.bh = true ∧
    s.buf.dev r.bh = r.dev ∧ s.buf.blocknr r.bh = r.block
  single  : ∀ i j r r', s.request i = some r → s.request j = some r' → r.bh = r'.bh → i = j

/-- A task that does not run. -/
abbrev absent : Hold := ⟨none, [], false⟩

/-- Task 0 alone holds references that are not among those counted by `base`. -/
structure Users (base : Nat → Nat) (N : Nat) (G : Nat → Hold) (s : Cache) : Prop where
  others : ∀ t, t ≠ 0 → G t = absent
  few    : (G 0).refs.length ≤ 2
  room   : ∀ h, h < N → base h + 2 ≤ 255
  count  : ∀ h, h < N → s.buf.count h = base h + (G 0).refs.countP fun r => r.bh = h
  keys   : ∀ r, r ∈ (G 0).refs →
    r.bh < N ∧ s.buf.dev r.bh = r.dev ∧ s.buf.blocknr r.bh = r.block

/-- The ghosts of a task that begins alone. -/
def beginning : Nat → Hold := Function.update (fun _ => absent) 0 (holding [])

variable {base : Nat → Nat} {N : Nat} {G : Nat → Hold} {s s' : Cache} {t : Nat} {L : List Ref}

theorem Orderly.users (O : Orderly N s) : Users s.buf.count N beginning s := by
  refine ⟨fun t ht => Function.update_of_ne ht .., Nat.zero_le 2, O.room, fun h _ => rfl, ?_⟩
  intro r hr
  cases hr

theorem Orderly.locks (O : Orderly N s) : Locks N beginning s := by
  have hnone : ∀ t, (beginning t).lock = none := by
    intro t
    unfold beginning
    rw [lock_update]
    split <;> rfl
  refine ⟨?_, ?_, ?_, ?_, ?_, O.pending, O.single⟩
  · intro t h x hl
    rw [hnone] at hl
    cases hl
  · intro t h x i r hl
    rw [hnone] at hl
    cases hl
  · intro t h hl
    rw [hnone] at hl
    cases hl
  · intro t h hl
    rw [hnone] at hl
    cases hl
  · intro t t' h x x' hl
    rw [hnone] at hl
    cases hl

/-- Only task 0 is alive. -/
theorem Users.task (U : Users base N G s) {l : Option (Nat × Option Bool)}
    (hg : G t = ⟨l, L, true⟩) : t = 0 := by
  by_contra h
  rw [U.others t h] at hg
  cases hg

/-- The references of the task, and with them the counts, change. -/
theorem Users.move {L' : List Ref} {l l' : Option (Nat × Option Bool)} (U : Users base N G s)
    (hg : G t = ⟨l, L, true⟩) (hlen : L'.length ≤ 2)
    (hcount : ∀ h, h < N → s'.buf.count h + L.countP (fun r => r.bh = h) =
      s.buf.count h + L'.countP fun r => r.bh = h)
    (hkeys : ∀ r, r ∈ L' → r.bh < N ∧ s'.buf.dev r.bh = r.dev ∧ s'.buf.blocknr r.bh = r.block) :
    Users base N (Function.update G t ⟨l', L', true⟩) s' := by
  obtain rfl := U.task hg
  refine ⟨?_, ?_, U.room, ?_, ?_⟩
  · intro t ht
    rw [Function.update_of_ne ht]
    exact U.others t ht
  · rw [Function.update_self]
    exact hlen
  · intro h hh
    have h1 := hcount h hh
    have h2 := U.count h hh
    rw [hg] at h2
    rw [Function.update_self]
    dsimp only at h2 ⊢
    omega
  · rw [Function.update_self]
    exact hkeys

/-- A change that concerns neither counts nor blocks. -/
theorem Users.relock {l l' : Option (Nat × Option Bool)} (U : Users base N G s)
    (hg : G t = ⟨l, L, true⟩) (hcount : s'.buf.count = s.buf.count) (hkeys : SameKeys s s') :
    Users base N (Function.update G t ⟨l', L, true⟩) s' := by
  have hrefs : (G 0).refs = L := by rw [← U.task hg, hg]
  refine U.move hg (hrefs ▸ U.few) (fun h _ => by rw [hcount]) ?_
  rw [hkeys.1, hkeys.2, ← hrefs]
  exact U.keys

theorem Users.congr (U : Users base N G s) (hcount : s'.buf.count = s.buf.count)
    (hkeys : SameKeys s s') : Users base N G s' := by
  refine ⟨U.others, U.few, U.room, ?_, ?_⟩
  · rw [hcount]
    exact U.count
  · rw [hkeys.1, hkeys.2]
    exact U.keys

theorem Users.acquire (U : Users base N G s) (hg : G t = holding L) (hL : L.length ≤ 1) {r : Ref}
    (hr : r.bh < N) (hd : s.buf.dev r.bh = r.dev) (hb : s.buf.blocknr r.bh = r.block) :
    Users base N (Function.update G t (holding (r :: L))) (s.incCount r.bh) := by
  have hrefs : (G 0).refs = L := by rw [← U.task hg, hg]
  refine U.move hg (by simpa using hL) ?_ ?_
  · intro h hh
    have hroom := U.room h hh
    have hc := U.count h hh
    have hle : L.countP (fun r => r.bh = h) ≤ 1 := Nat.le_trans List.countP_le_length hL
    rw [hrefs] at hc
    exact incCount_refs (by omega)
  · intro r' hr'
    rcases List.mem_cons.mp hr' with rfl | hr'
    · exact ⟨hr, hd, hb⟩
    · exact U.keys r' (by rw [hrefs]; exact hr')

theorem Users.release (U : Users base N G s) {r : Ref} (hg : G t = holding (r :: L)) :
    Users base N (Function.update G t (holding L)) (s.decCount r.bh) := by
  have hrefs : (G 0).refs = r :: L := by rw [← U.task hg, hg]
  have hfew : (r :: L).length ≤ 2 := hrefs ▸ U.few
  refine U.move hg (by simp only [List.length_cons] at hfew; omega) ?_ ?_
  · intro h hh
    have hroom := U.room h hh
    have hc := U.count h hh
    have hle : (r :: L).countP (fun r => r.bh = h) ≤ 2 := Nat.le_trans List.countP_le_length hfew
    rw [hrefs] at hc
    refine decCount_refs ?_ (by omega)
    rintro rfl
    -- the reference itself is counted
    rw [List.countP_cons] at hc
    simp only [if_true, decide_true] at hc
    omega
  · intro r' hr'
    exact U.keys r' (by rw [hrefs]; exact List.mem_cons_of_mem _ hr')

theorem Users.takeover (U : Users base N G s) (hg : G t = holding L) (hL : L.length ≤ 1) {bh : Nat}
    (hbh : bh < N) (h0 : s.buf.count bh = 0) {dev : UInt16} {block : UInt32} {b : Buffers}
    (T : TakenOver s.buf bh dev block b) :
    Users base N (Function.update G t (holding (⟨bh, dev, block⟩ :: L))) { s with buf := b } := by
  have hrefs : (G 0).refs = L := by rw [← U.task hg, hg]
  have hc0 := U.count bh hbh
  rw [h0, hrefs] at hc0
  have hnone : L.countP (fun r => r.bh = bh) = 0 := by omega
  refine U.move hg (by simpa using hL) (fun h _ => T.refs h0 h) ?_
  · intro r hr
    show r.bh < N ∧ b.dev r.bh = r.dev ∧ b.blocknr r.bh = r.block
    rw [T.dev, T.blocknr]
    rcases List.mem_cons.mp hr with rfl | hr
    · exact ⟨hbh, Function.update_self .., Function.update_self ..⟩
    · -- nobody holds the head
      have hne : r.bh ≠ bh := fun he => List.countP_eq_zero.mp hnone r hr (by simpa using he)
      rw [Function.update_of_ne hne, Function.update_of_ne hne]
      exact U.keys r (by rw [hrefs]; exact hr)

/-- The task holds a head of the block it was got for. -/
theorem Users.key (U : Users base N G s) {l : Option (Nat × Option Bool)} {r : Ref}
    (hg : G t = ⟨l, L, true⟩) (hr : r ∈ L) :
    r.bh < N ∧ s.buf.dev r.bh = r.dev ∧ s.buf.blocknr r.bh = r.block := by
  have hrefs : (G 0).refs = L := by rw [← U.task hg, hg]
  exact U.keys r (by rw [hrefs]; exact hr)

end Linux011.Fs
