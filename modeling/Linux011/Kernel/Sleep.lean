import Mathlib.Logic.Relation
import Mathlib.Data.List.Count
import Linux011.Lib.Chain

/-!
# Wait queues

`sleep_on`, `interruptible_sleep_on` and `wake_up` on one queue. A queue is a pointer to
the task that came last; each task that sleeps has, on its stack, the one that was there
before it.

A task that goes to sleep reads the queue, puts itself there and then changes its state,
and where interrupts are on one of them can call `wake_up` in between: `make_request` and
`floppy_change` sleep that way, where `lock_buffer` and `floppy_on` use `cli`.

* `Forest` — the chains that begin at the queue and at the tasks that have been woken;
* `sleep_on_kept` — no task that is in `sleep_on` is forgotten, if no `wake_up` comes
  between its stores;
* `sleep_on_forgets` — what happens otherwise;
* `interruptible_sleep_on_kept` — nor in `interruptible_sleep_on`, if a task that changes
  its state, on its way in or going back to sleep, is on the queue;
* `interruptible_sleep_on_forgets` — what happens otherwise.
-/

namespace Linux011.Kernel.Sleep

open Linux011.Lib

inductive TaskState
  | running
  | interruptible
  | uninterruptible
  | zombie
  | stopped
  deriving DecidableEq, Repr

/-- What the current task does next in the function, where an interrupt may come. -/
inductive Point
  /-- `*p = current`, after `tmp = *p`. -/
  | link
  /-- The store of `current->state`, after `*p = current` or `goto repeat`. -/
  | mark
  deriving DecidableEq, Repr

/-- The queue, and the tasks. A task that is in the function has a `tmp`; `mid` is the
current task when it is between two of the stores. For the specification only, how often
each task went to sleep and was made runnable. -/
structure State where
  head   : Option Nat
  tmp    : Nat → Option (Option Nat)
  state  : Nat → TaskState
  mid    : Option (Nat × Point)
  sleeps : Nat → Nat
  wakes  : Nat → Nat

def State.setState (s : State) (t : Nat) (x : TaskState) : State :=
  { s with state := Function.update s.state t x }

/-- A task is made runnable. -/
def State.wake (s : State) (t : Nat) : State :=
  { s.setState t .running with wakes := Function.update s.wakes t (s.wakes t + 1) }

/-- `tmp = *p`. -/
def State.read (s : State) (t : Nat) : State :=
  { s with tmp := Function.update s.tmp t (some s.head), mid := some (t, .link) }

/-- `*p = current`. -/
def State.link (s : State) (t : Nat) : State := { s with head := some t, mid := some (t, .mark) }

/-- `current->state = x`, and `schedule` lets the others run. -/
def State.mark (s : State) (t : Nat) (x : TaskState) : State :=
  { s.setState t x with mid := none, sleeps := Function.update s.sleeps t (s.sleeps t + 1) }

/-- `sleep_on` and `interruptible_sleep_on` up to `schedule`, with no interrupt in between. -/
def State.enter (s : State) (t : Nat) (x : TaskState) : State := ((s.read t).link t).mark t x

/-- The end of both: the task before is made runnable. -/
def State.leave (s : State) (t : Nat) : State :=
  let s' := { s with tmp := Function.update s.tmp t none }
  match s.tmp t with
  | some (some u) => s'.wake u
  | _ => s'

/-- `wake_up`. It is one step: only another `wake_up` can come between its stores, which
finds the task running and clears the same pointer. -/
def State.wakeUp (s : State) : State :=
  match s.head with
  | none => s
  | some h => { s.wake h with head := none }

/-- The rest of `interruptible_sleep_on`, from `schedule` on. -/
def State.interruptible (s : State) (t : Nat) : State :=
  match s.head with
  | some h =>
    if h ≠ t then { s.wake h with mid := some (t, .mark) }
    else { s with head := none }.leave t
  | none => s.leave t

/-- Nobody is in the function. -/
def Idle (s : State) : Prop :=
  s.head = none ∧ (∀ t, s.tmp t = none) ∧ s.mid = none ∧ ∀ t, s.sleeps t = s.wakes t

/-! ## `sleep_on` -/

/-- The task before. -/
def State.next (s : State) (t : Nat) : Option Nat := (s.tmp t).join

def State.Asleep (s : State) (t : Nat) : Prop := s.tmp t ≠ none ∧ s.state t = .uninterruptible

/-- Runnable in the function. -/
def State.Runs (s : State) (t : Nat) : Prop := s.tmp t ≠ none ∧ s.state t = .running

/-- Made runnable, and not past `if (tmp)`. -/
def State.Woken (s : State) (t : Nat) : Prop := s.Runs t ∧ ∀ p, s.mid ≠ some (t, p)

/-- On the queue: asleep, or about to be. -/
def State.Linked (s : State) (t : Nat) : Prop := s.Asleep t ∨ s.mid = some (t, .mark)

instance (s : State) (t : Nat) : Decidable (s.Asleep t) := inferInstanceAs (Decidable (_ ∧ _))

instance (s : State) (t : Nat) : Decidable (s.Runs t) := inferInstanceAs (Decidable (_ ∧ _))

/-- No task is between its stores, or nobody is on the queue. -/
def State.Undisturbed (s : State) : Prop := s.mid = none ∨ s.head = none

/-- Any number of tasks that use the queue with `sleep_on` and `wake_up`. The kernel does
not lose the processor: while a task is between its stores the only others to do anything
are interrupts, which call `wake_up` and make tasks elsewhere runnable. `allow` restricts
the calls of `wake_up`. -/
inductive Step (allow : State → Prop) : State → State → Prop
  | read {s : State} (t : Nat) (ht : s.tmp t = none) (hrun : s.state t = .running) (hmid : s.mid = none) :
      Step allow s (s.read t)
  | link {s : State} (t : Nat) (hmid : s.mid = some (t, .link)) : Step allow s (s.link t)
  | mark {s : State} (t : Nat) (hmid : s.mid = some (t, .mark)) : Step allow s (s.mark t .uninterruptible)
  | resume {s : State} (t : Nat) (ht : s.Runs t) (hmid : s.mid = none) : Step allow s (s.leave t)
  | wakeUp {s : State} (hallow : allow s) : Step allow s s.wakeUp
  /-- A task that is not in `sleep_on` does something else. -/
  | other {s : State} (t : Nat) (x : TaskState) (ht : s.tmp t = none) : Step allow s (s.setState t x)

abbrev Reach (allow : State → Prop) : State → State → Prop := Relation.ReflTransGen (Step allow)

/-- `f none` is the chain from the queue, `f (some w)` the one from the `tmp` of a task
that was woken. -/
structure Forest (s : State) (f : Option Nat → List Nat) : Prop where
  head   : Chain s.next s.head (f none)
  woken  : ∀ w, s.Woken w → Chain s.next (s.next w) (f (some w))
  only   : ∀ w, f (some w) ≠ [] → s.Woken w
  linked : ∀ o t, t ∈ f o → s.Linked t
  one    : ∀ o o' t, t ∈ f o → t ∈ f o' → o' = o
  all    : ∀ t, s.Linked t → ∃ o, t ∈ f o
  states : ∀ t, s.tmp t ≠ none → s.Asleep t ∨ s.Runs t
  counts : ∀ t, s.sleeps t = s.wakes t + if s.Asleep t then 1 else 0
  mid    : ∀ t p, s.mid = some (t, p) → s.Runs t
  read   : ∀ t, s.mid = some (t, .link) → s.tmp t = some s.head
  marks  : ∀ t, s.mid = some (t, .mark) → s.head = some t

variable {s s' : State} {f : Option Nat → List Nat}

theorem Asleep.not_runs {t : Nat} (h : s.Asleep t) : ¬ s.Runs t := by
  intro hr
  have hs := h.2
  rw [hr.2] at hs
  cases hs

theorem woken_iff (hmid : s.mid = none) (t : Nat) : s.Woken t ↔ s.Runs t := by
  unfold State.Woken
  simp [hmid]

theorem linked_iff (hmid : s.mid = none) (t : Nat) : s.Linked t ↔ s.Asleep t := by
  unfold State.Linked
  simp [hmid]

theorem Asleep.not_woken {t : Nat} (h : s.Asleep t) : ¬ s.Woken t := fun hw => Asleep.not_runs h hw.1

theorem Forest.asleep (h : Forest s f) (hmid : s.mid = none) (o : Option Nat) (t : Nat) (ht : t ∈ f o) :
    s.Asleep t := (linked_iff hmid t).mp (h.linked o t ht)

/-- A step that leaves the pointers, and who is on the queue or was woken, as they are. -/
theorem Forest.same (h : Forest s f) (hhead : s'.head = s.head)
    (hnext : ∀ x, s.Linked x ∨ s.Woken x → s'.next x = s.next x)
    (hlinked : ∀ x, s'.Linked x ↔ s.Linked x) (hwoken : ∀ x, s'.Woken x ↔ s.Woken x)
    (hstates : ∀ t, s'.tmp t ≠ none → s'.Asleep t ∨ s'.Runs t)
    (hcounts : ∀ t, s'.sleeps t = s'.wakes t + if s'.Asleep t then 1 else 0)
    (hmid : ∀ t p, s'.mid = some (t, p) → s'.Runs t)
    (hread : ∀ t, s'.mid = some (t, .link) → s'.tmp t = some s'.head)
    (hmarks : ∀ t, s'.mid = some (t, .mark) → s'.head = some t) : Forest s' f where
  head   := by
    rw [hhead]
    exact h.head.congr fun a ha => hnext a (Or.inl (h.linked none a ha))
  woken  := fun w hw => by
    have hw' := (hwoken w).mp hw
    rw [hnext w (Or.inr hw')]
    exact (h.woken w hw').congr fun a ha => hnext a (Or.inl (h.linked _ a ha))
  only   := fun w hne => (hwoken w).mpr (h.only w hne)
  linked := fun o t ht => (hlinked t).mpr (h.linked o t ht)
  one    := h.one
  all    := fun t ht => h.all t ((hlinked t).mp ht)
  states := hstates
  counts := hcounts
  mid    := hmid
  read   := hread
  marks  := hmarks

/-- `tmp = *p`. -/
theorem Forest.readHead (h : Forest s f) {t : Nat} (ht : s.tmp t = none) (hrun : s.state t = .running)
    (hmid : s.mid = none) : Forest (s.read t) f := by
  have htmp : (s.read t).tmp t = some s.head := Function.update_self ..
  have htmp' : ∀ x, x ≠ t → (s.read t).tmp x = s.tmp x := fun x hx => Function.update_of_ne hx ..
  have hmid' : (s.read t).mid = some (t, .link) := rfl
  have hasleep : ∀ x, (s.read t).Asleep x ↔ s.Asleep x := by
    intro x
    show _ ∧ s.state x = _ ↔ _ ∧ s.state x = _
    by_cases hx : x = t
    · simp [hx, hrun]
    · rw [htmp' x hx]
  have hruns : ∀ x, (s.read t).Runs x ↔ s.Runs x ∨ x = t := by
    intro x
    show _ ∧ s.state x = _ ↔ (_ ∧ s.state x = _) ∨ _
    by_cases hx : x = t
    · simp [hx, hrun, htmp]
    · rw [htmp' x hx]
      simp [hx]
  refine h.same rfl (fun x hx => ?_) (fun x => ?_) (fun x => ?_) (fun x hx => ?_) (fun x => ?_)
    (fun x p hp => ?_) (fun x hx => ?_) (fun x hx => by rw [hmid'] at hx; cases hx)
  · have hxt : x ≠ t := by
      rintro rfl
      rw [linked_iff hmid, woken_iff hmid] at hx
      exact hx.elim (fun ha => ha.1 ht) fun hr => hr.1 ht
    unfold State.next
    rw [htmp' x hxt]
  · rw [linked_iff hmid]
    unfold State.Linked
    rw [hasleep x, hmid']
    simp
  · rw [woken_iff hmid]
    unfold State.Woken
    rw [hruns x, hmid']
    by_cases hx : x = t
    · have hno : ¬ s.Runs t := fun hr => hr.1 ht
      simp [hno, hx]
    · simp [hx, Ne.symm hx]
  · rw [hasleep x, hruns x]
    by_cases hxt : x = t
    · exact Or.inr (Or.inr hxt)
    · rw [htmp' x hxt] at hx
      exact (h.states x hx).imp_right Or.inl
  · simp only [hasleep x]
    exact h.counts x
  · rw [hmid'] at hp
    cases hp
    exact (hruns t).mpr (Or.inr rfl)
  · rw [hmid'] at hx
    cases hx
    exact htmp

/-- `*p = current`: the task is on the queue, before those that were there. -/
theorem Forest.link (h : Forest s f) {t : Nat} (hmid : s.mid = some (t, .link)) :
    Forest (s.link t) (Function.update f none (t :: f none)) := by
  have hruns := h.mid t _ hmid
  have hmid' : (s.link t).mid = some (t, .mark) := rfl
  have hnotLinked : ¬ s.Linked t := by
    rintro (ha | hm)
    · exact Asleep.not_runs ha hruns
    · rw [hmid] at hm
      cases hm
  have hout : ∀ o, t ∉ f o := fun o hmem => hnotLinked (h.linked o t hmem)
  have hlinked : ∀ x, (s.link t).Linked x ↔ x = t ∨ s.Linked x := by
    intro x
    unfold State.Linked
    rw [hmid', hmid]
    simp only [Option.some_inj, Prod.mk.injEq, and_true, reduceCtorEq, and_false, or_false]
    rw [or_comm, eq_comm]
    rfl
  have hwoken : ∀ x, (s.link t).Woken x ↔ s.Woken x := by
    intro x
    unfold State.Woken
    rw [hmid', hmid]
    by_cases hx : t = x
    · simp [hx]
    · simp only [ne_eq, Option.some_inj, Prod.mk.injEq, hx, false_and, not_false_eq_true]
      rfl
  have hmem : ∀ o x, x ∈ Function.update f none (t :: f none) o ↔ (x = t ∧ o = none) ∨ x ∈ f o := by
    intro o x
    cases o with
    | none => simp
    | some w => simp
  refine ⟨?_, ?_, ?_, ?_, ?_, ?_, h.states, h.counts, ?_, fun x hx => ?_, fun x hx => ?_⟩
  · rw [Function.update_self]
    refine ⟨rfl, ?_⟩
    rw [show (s.link t).next t = s.head by unfold State.next State.link; rw [h.read t hmid]; rfl]
    exact h.head
  · intro w hw
    rw [Function.update_of_ne (by simp)]
    exact h.woken w ((hwoken w).mp hw)
  · intro w hne
    rw [Function.update_of_ne (by simp)] at hne
    exact (hwoken w).mpr (h.only w hne)
  · intro o x hx
    rcases (hmem o x).mp hx with ⟨hxt, -⟩ | hx
    · exact (hlinked x).mpr (Or.inl hxt)
    · exact (hlinked x).mpr (Or.inr (h.linked o x hx))
  · intro o o' x hx hx'
    rcases (hmem o x).mp hx with ⟨hxt, ho⟩ | hin
    · rcases (hmem o' x).mp hx' with ⟨-, ho'⟩ | hin'
      · rw [ho, ho']
      · exact absurd (hxt ▸ hin') (hout o')
    · rcases (hmem o' x).mp hx' with ⟨hxt, -⟩ | hin'
      · exact absurd (hxt ▸ hin) (hout o)
      · exact h.one o o' x hin hin'
  · intro x hx
    rcases (hlinked x).mp hx with hxt | hx
    · exact ⟨none, (hmem none x).mpr (Or.inl ⟨hxt, rfl⟩)⟩
    · obtain ⟨o, ho⟩ := h.all x hx
      exact ⟨o, (hmem o x).mpr (Or.inr ho)⟩
  · intro x p hp
    rw [hmid'] at hp
    cases hp
    exact hruns
  · rw [hmid'] at hx
    cases hx
  · rw [hmid'] at hx
    cases hx
    rfl

/-- `current->state = TASK_UNINTERRUPTIBLE`: the task is asleep where it was about to be. -/
theorem Forest.mark (h : Forest s f) {t : Nat} (hmid : s.mid = some (t, .mark)) :
    Forest (s.mark t .uninterruptible) f := by
  have hruns := h.mid t _ hmid
  have hmid' : (s.mark t .uninterruptible).mid = none := rfl
  have hstate : (s.mark t .uninterruptible).state t = .uninterruptible := Function.update_self ..
  have hstate' : ∀ x, x ≠ t → (s.mark t .uninterruptible).state x = s.state x :=
    fun x hx => Function.update_of_ne hx ..
  have hasleep : ∀ x, (s.mark t .uninterruptible).Asleep x ↔ x = t ∨ s.Asleep x := by
    intro x
    by_cases hx : x = t
    · rw [hx]
      exact ⟨fun _ => Or.inl rfl, fun _ => ⟨hruns.1, hstate⟩⟩
    · unfold State.Asleep
      rw [hstate' x hx]
      simp only [hx, false_or]
      rfl
  have hrunsIff : ∀ x, (s.mark t .uninterruptible).Runs x ↔ s.Runs x ∧ x ≠ t := by
    intro x
    by_cases hx : x = t
    · have hno : ¬ (s.mark t .uninterruptible).Runs t := Asleep.not_runs ⟨hruns.1, hstate⟩
      simp [hx, hno]
    · unfold State.Runs
      rw [hstate' x hx]
      simp only [hx, ne_eq, not_false_eq_true, and_true]
      rfl
  refine h.same rfl (fun _ _ => rfl) (fun x => ?_) (fun x => ?_) (fun x hx => ?_) (fun x => ?_)
    (fun x p hp => by cases hp) (fun x hx => by cases hx) (fun x hx => by cases hx)
  · rw [linked_iff hmid', hasleep x]
    unfold State.Linked
    rw [hmid]
    simp only [Option.some_inj, Prod.mk.injEq, and_true]
    rw [or_comm, eq_comm]
  · rw [woken_iff hmid', hrunsIff x]
    unfold State.Woken
    rw [hmid]
    simp only [ne_eq, Option.some_inj, Prod.mk.injEq, not_and, and_congr_right_iff]
    exact fun _ => ⟨fun hx p heq => absurd heq.symm hx, fun hall heq => hall _ heq.symm rfl⟩
  · rw [hasleep x, hrunsIff x]
    by_cases hxt : x = t
    · exact Or.inl (Or.inl hxt)
    · exact (h.states x hx).imp Or.inr fun hr => ⟨hr, hxt⟩
  · have hc := h.counts x
    show Function.update s.sleeps t (s.sleeps t + 1) x = s.wakes x + _
    simp only [hasleep x]
    by_cases hxt : x = t
    · subst hxt
      rw [if_neg fun ha => Asleep.not_runs ha hruns] at hc
      rw [Function.update_self, if_pos (Or.inl rfl)]
      omega
    · rw [Function.update_of_ne hxt, hc]
      simp only [hxt, false_or]

/-- The first of a chain is made runnable: what follows hangs from it. The task that
does it, if it is one of those that were woken, has left. -/
theorem Forest.wake (h : Forest s f) (hmid : s.mid = none) (hmid' : s'.mid = none) {o : Option Nat} {u : Nat} {l : List Nat} (ho : f o = u :: l)
    (htmp : ∀ x, o ≠ some x → s'.tmp x = s.tmp x) (hgone : ∀ w, o = some w → s'.tmp w = none)
    (hstate : s'.state = Function.update s.state u .running)
    (hhead : s'.head = if o = none then none else s.head) (hsleeps : s'.sleeps = s.sleeps)
    (hwakes : s'.wakes = Function.update s.wakes u (s.wakes u + 1)) :
    Forest s' (Function.update (Function.update f o []) (some u) l) := by
  have huo : u ∈ f o := ho ▸ List.mem_cons_self
  have hu : s.Asleep u := h.asleep hmid o u huo
  have hstate' : ∀ x, x ≠ u → s'.state x = s.state x := fun x hx => by
    rw [hstate, Function.update_of_ne hx]
  have hgone' : ∀ x, s'.tmp x ≠ none → o ≠ some x := fun x hx hox => hx (hgone x hox)
  -- those that sleep are there still
  have hstay : ∀ x, s.Asleep x → o ≠ some x := by
    rintro x hx rfl
    exact Asleep.not_woken hx (h.only x (by rw [ho]; simp))
  have hnext : ∀ x, o ≠ some x → s'.next x = s.next x := by
    intro x hx
    unfold State.next
    rw [htmp x hx]
  have hasleep : ∀ x, s'.Asleep x ↔ s.Asleep x ∧ x ≠ u := by
    intro x
    constructor
    · intro hx
      have hxu : x ≠ u := by
        rintro rfl
        have hrun := hx.2
        rw [hstate, Function.update_self] at hrun
        cases hrun
      refine ⟨⟨?_, ?_⟩, hxu⟩
      · rw [← htmp x (hgone' x hx.1)]
        exact hx.1
      · rw [← hstate' x hxu]
        exact hx.2
    · rintro ⟨hx, hxu⟩
      refine ⟨?_, ?_⟩
      · rw [htmp x (hstay x hx)]
        exact hx.1
      · rw [hstate' x hxu]
        exact hx.2
  have hruns : ∀ x, s'.Runs x ↔ x = u ∨ s.Runs x ∧ o ≠ some x := by
    intro x
    unfold State.Runs
    by_cases hxu : x = u
    · subst hxu
      rw [htmp x (hstay x hu), hstate, Function.update_self]
      simp [hu.1]
    · rw [hstate' x hxu]
      by_cases hox : o = some x
      · simp [hgone x hox, hox, hxu]
      · simp [htmp x hox, hox, hxu]
  have hwoken : ∀ x, s'.Woken x ↔ x = u ∨ s.Woken x ∧ o ≠ some x := by
    intro x
    rw [woken_iff hmid', woken_iff hmid, hruns x]
  have hsome : f (some u) = [] := by
    by_contra hne
    exact Asleep.not_woken hu (h.only u hne)
  have hou : o ≠ some u := hstay u hu
  have hchain : Chain s.next (s.next u) l ∧ u ∉ l := by
    have hwhole : ∃ p, Chain s.next p (u :: l) := by
      cases o with
      | none => exact ⟨_, ho ▸ h.head⟩
      | some w => exact ⟨_, ho ▸ h.woken w (h.only w (by rw [ho]; simp))⟩
    obtain ⟨p, hp⟩ := hwhole
    exact ⟨hp.2, (List.nodup_cons.mp hp.nodup).1⟩
  have hkeep : ∀ p o' l', Chain s.next p l' → (∀ x, x ∈ l' → x ∈ f o') → Chain s'.next p l' :=
    fun p o' l' hl hsub => hl.congr fun a ha => hnext a (hstay a (h.asleep hmid o' a (hsub a ha)))
  have hl : ∀ x, x ∈ l → x ∈ f o := fun x hx => ho ▸ List.mem_cons_of_mem u hx
  have hmem : ∀ o' x, x ∈ Function.update (Function.update f o []) (some u) l o' ↔
      (o' = some u ∧ x ∈ l) ∨ (o' ≠ o ∧ x ∈ f o') := by
    intro o' x
    by_cases hu' : o' = some u
    · subst hu'
      simp [hsome]
    · rw [Function.update_of_ne hu']
      by_cases hoo : o' = o
      · subst hoo
        simp [hu']
      · rw [Function.update_of_ne hoo]
        simp [hu', hoo]
  refine ⟨?_, ?_, ?_, ?_, ?_, ?_, ?_, ?_, fun x p hp => ?_, fun x hx => ?_, fun x hx => ?_⟩
  · rw [Function.update_of_ne (by simp), hhead]
    by_cases hnone : o = none
    · rw [if_pos hnone, hnone, Function.update_self]
      rfl
    · rw [if_neg hnone, Function.update_of_ne (Ne.symm hnone)]
      exact hkeep _ none _ h.head fun _ hx => hx
  · intro w hw
    rcases (hwoken w).mp hw with rfl | ⟨hw, how⟩
    · rw [Function.update_self, hnext w hou]
      exact hkeep _ o _ hchain.1 hl
    · have hwu : w ≠ u := by
        rintro rfl
        exact Asleep.not_woken hu hw
      rw [Function.update_of_ne (by simpa using hwu), Function.update_of_ne (Ne.symm how), hnext w how]
      exact hkeep _ (some w) _ (h.woken w hw) fun _ hx => hx
  · intro w hne
    obtain ⟨x, hx⟩ := List.exists_mem_of_ne_nil _ hne
    rcases (hmem (some w) x).mp hx with ⟨hwu, -⟩ | ⟨hwo, hx⟩
    · exact (hwoken w).mpr (Or.inl (Option.some.inj hwu))
    · exact (hwoken w).mpr (Or.inr ⟨h.only w (List.ne_nil_of_mem hx), Ne.symm hwo⟩)
  · intro o' x hx
    rw [linked_iff hmid']
    rcases (hmem o' x).mp hx with ⟨-, hin⟩ | ⟨hoo, hin⟩
    · exact (hasleep x).mpr ⟨h.asleep hmid o x (hl x hin), fun heq => hchain.2 (heq ▸ hin)⟩
    · exact (hasleep x).mpr ⟨h.asleep hmid o' x hin, fun heq => hoo (h.one o o' x (heq ▸ huo) hin)⟩
  · intro o₁ o₂ x hx₁ hx₂
    rcases (hmem o₁ x).mp hx₁ with ⟨h₁, hin₁⟩ | ⟨h₁, hin₁⟩
    · rcases (hmem o₂ x).mp hx₂ with ⟨h₂, -⟩ | ⟨h₂, hin₂⟩
      · rw [h₁, h₂]
      · exact absurd (h.one o o₂ x (hl x hin₁) hin₂) h₂
    · rcases (hmem o₂ x).mp hx₂ with ⟨-, hin₂⟩ | ⟨-, hin₂⟩
      · exact absurd (h.one o o₁ x (hl x hin₂) hin₁) h₁
      · exact h.one o₁ o₂ x hin₁ hin₂
  · intro x hx
    obtain ⟨hx, hxu⟩ := (hasleep x).mp ((linked_iff hmid' x).mp hx)
    obtain ⟨o', ho'⟩ := h.all x ((linked_iff hmid x).mpr hx)
    by_cases hoo : o' = o
    · rw [hoo, ho] at ho'
      rcases List.mem_cons.mp ho' with heq | hxl
      · exact absurd heq hxu
      · exact ⟨some u, (hmem _ x).mpr (Or.inl ⟨rfl, hxl⟩)⟩
    · exact ⟨o', (hmem o' x).mpr (Or.inr ⟨hoo, ho'⟩)⟩
  · intro x hx
    have hox := hgone' x hx
    rw [htmp x hox] at hx
    by_cases hxu : x = u
    · exact Or.inr ((hruns x).mpr (Or.inl hxu))
    · rcases h.states x hx with ha | hr
      · exact Or.inl ((hasleep x).mpr ⟨ha, hxu⟩)
      · exact Or.inr ((hruns x).mpr (Or.inr ⟨hr, hox⟩))
  · intro x
    have hc := h.counts x
    rw [hsleeps, hwakes]
    by_cases hxu : x = u
    · subst hxu
      have hno : ¬ s'.Asleep x := fun ha => ((hasleep x).mp ha).2 rfl
      rw [if_pos hu] at hc
      rw [Function.update_self, if_neg hno]
      omega
    · rw [Function.update_of_ne hxu, hc]
      have hiff : s'.Asleep x ↔ s.Asleep x := by
        rw [hasleep x]
        exact ⟨fun ha => ha.1, fun ha => ⟨ha, hxu⟩⟩
      simp only [hiff]
  · rw [hmid'] at hp
    cases hp
  · rw [hmid'] at hx
    cases hx
  · rw [hmid'] at hx
    cases hx

/-- A task that had nobody before it leaves. -/
theorem Forest.leave (h : Forest s f) (hmid : s.mid = none) {t : Nat} (ht : s.Runs t) (hlast : s.next t = none) :
    Forest { s with tmp := Function.update s.tmp t none } f := by
  -- nobody is behind the task, so its chain may go
  have hempty : f (some t) = [] := by
    have hchain := h.woken t ((woken_iff hmid t).mpr ht)
    rw [hlast] at hchain
    cases hf : f (some t) with
    | nil => rfl
    | cons a l =>
      rw [hf] at hchain
      cases hchain.1
  have hne : ∀ x, s.Asleep x → x ≠ t := by
    rintro x hx rfl
    exact Asleep.not_runs hx ht
  have hasleep : ∀ x, State.Asleep { s with tmp := Function.update s.tmp t none } x ↔ s.Asleep x := by
    intro x
    by_cases hxt : x = t
    · subst hxt
      unfold State.Asleep
      simp [ht.2]
    · unfold State.Asleep
      simp [hxt]
  have hruns : ∀ x, State.Runs { s with tmp := Function.update s.tmp t none } x ↔ s.Runs x ∧ x ≠ t := by
    intro x
    by_cases hxt : x = t
    · subst hxt
      unfold State.Runs
      simp
    · unfold State.Runs
      simp [hxt]
  have hwoken : ∀ x, State.Woken { s with tmp := Function.update s.tmp t none } x ↔
      s.Woken x ∧ x ≠ t := by
    intro x
    rw [woken_iff hmid, ← hruns x]
    exact and_iff_left fun p hp => by simp [hmid] at hp
  have hlinked : ∀ x, State.Linked { s with tmp := Function.update s.tmp t none } x ↔ s.Linked x := by
    intro x
    rw [linked_iff hmid, ← hasleep x]
    exact or_iff_left fun hp => by simp [hmid] at hp
  have hnext : ∀ x, x ≠ t →
      State.next { s with tmp := Function.update s.tmp t none } x = s.next x := by
    intro x hx
    unfold State.next
    dsimp only
    rw [Function.update_of_ne hx]
  have hkeep : ∀ p o, Chain s.next p (f o) →
      Chain (State.next { s with tmp := Function.update s.tmp t none }) p (f o) :=
    fun p o hl => hl.congr fun a ha => hnext a (hne a (h.asleep hmid o a ha))
  refine ⟨hkeep _ none h.head, ?_, ?_, ?_, h.one, ?_, ?_, ?_, fun x p hp => ?_, fun x hx => ?_, h.marks⟩
  · intro w hw
    obtain ⟨hw, hwt⟩ := (hwoken w).mp hw
    rw [hnext w hwt]
    exact hkeep _ (some w) (h.woken w hw)
  · intro w hw
    refine (hwoken w).mpr ⟨h.only w hw, ?_⟩
    rintro rfl
    exact hw hempty
  · exact fun o x hx => (hlinked x).mpr (h.linked o x hx)
  · exact fun x hx => h.all x ((hlinked x).mp hx)
  · intro x hx
    have hxt : x ≠ t := by
      rintro rfl
      exact hx (Function.update_self ..)
    replace hx : Function.update s.tmp t none x ≠ none := hx
    rw [Function.update_of_ne hxt] at hx
    rcases h.states x hx with ha | hr
    · exact Or.inl ((hasleep x).mpr ha)
    · exact Or.inr ((hruns x).mpr ⟨hr, hxt⟩)
  · intro x
    simp only [hasleep x]
    exact h.counts x
  · rw [show _ = s.mid from rfl, hmid] at hp
    cases hp
  · rw [show _ = s.mid from rfl, hmid] at hx
    cases hx

/-- On the chain of a task that was woken. -/
def Behind (f : Option Nat → List Nat) (t : Nat) : Prop := ∃ w, t ∈ f (some w)

/-- What a step does: a task that hangs from one that was woken does so still, or has been
made runnable. -/
structure Kept (s s' : State) (f f' : Option Nat → List Nat) : Prop where
  forest : Forest s' f'
  behind : ∀ t, Behind f t → Behind f' t ∨ s.wakes t < s'.wakes t
  wakes  : ∀ t, s.wakes t ≤ s'.wakes t

theorem le_wake (n : Nat → Nat) (u t : Nat) : n t ≤ Function.update n u (n u + 1) t := by
  by_cases htu : t = u
  · rw [htu, Function.update_self]
    omega
  · exact Nat.le_of_eq (Function.update_of_ne htu _ _).symm

theorem behind_wake {o : Option Nat} {u : Nat} {l : List Nat} (h : Forest s f) (hmid : s.mid = none) (ho : f o = u :: l)
    (t : Nat) (ht : Behind f t) : t = u ∨ Behind (Function.update (Function.update f o []) (some u) l) t := by
  obtain ⟨w, hw⟩ := ht
  have hu : s.Asleep u := h.asleep hmid o u (ho ▸ List.mem_cons_self)
  have hwu : w ≠ u := by
    rintro rfl
    exact Asleep.not_woken hu (h.only w (List.ne_nil_of_mem hw))
  by_cases how : some w = o
  · rw [how, ho] at hw
    rcases List.mem_cons.mp hw with heq | hl
    · exact Or.inl heq
    · exact Or.inr ⟨u, by rw [Function.update_self]; exact hl⟩
  · refine Or.inr ⟨w, ?_⟩
    rw [Function.update_of_ne (by simpa using hwu), Function.update_of_ne how]
    exact hw

theorem kept_wakeUp (h : Forest s f) (hfree : s.Undisturbed) : ∃ f', Kept s s.wakeUp f f' ∧
    ∀ t, s.Asleep t → Behind f' t ∨ s.wakes t < s.wakeUp.wakes t := by
  have hhead := h.head
  unfold State.wakeUp
  cases hf : f none with
  | nil =>
    rw [hf, chain_nil] at hhead
    rw [hhead]
    refine ⟨f, ⟨h, fun t ht => Or.inl ht, fun _ => Nat.le_refl _⟩, fun t ht => ?_⟩
    obtain ⟨o, ho⟩ := h.all t (Or.inl ht)
    cases o with
    | none =>
      rw [hf] at ho
      cases ho
    | some w => exact Or.inl ⟨w, ho⟩
  | cons u l =>
    rw [hf] at hhead
    have hmid : s.mid = none := hfree.resolve_right fun hnone => by
      rw [hnone] at hhead
      cases hhead.1
    rw [hhead.1]
    have hmid' : State.mid { s.wake u with head := none } = none := hmid
    have hforest : Forest { s.wake u with head := none }
        (Function.update (Function.update f none []) (some u) l) :=
      h.wake hmid hmid' hf (fun _ _ => rfl) (fun w hw => by cases hw) rfl rfl rfl rfl
    have hlt : s.wakes u < Function.update s.wakes u (s.wakes u + 1) u := by
      rw [Function.update_self]
      exact Nat.lt_succ_self _
    refine ⟨_, ⟨hforest, fun t ht => ?_, le_wake s.wakes u⟩, fun t ht => ?_⟩
    · rcases behind_wake h hmid hf t ht with rfl | hb
      · exact Or.inr hlt
      · exact Or.inl hb
    · obtain ⟨o, ho⟩ := h.all t (Or.inl ht)
      cases o with
      | none =>
        rw [hf] at ho
        rcases List.mem_cons.mp ho with rfl | hl
        · exact Or.inr hlt
        · exact Or.inl ⟨u, by rw [Function.update_self]; exact hl⟩
      | some w =>
        rcases behind_wake h hmid hf t ⟨w, ho⟩ with rfl | hb
        · exact Or.inr hlt
        · exact Or.inl hb

theorem kept_step (h : Forest s f) (hs : Step State.Undisturbed s s') : ∃ f', Kept s s' f f' := by
  cases hs with
  | read t ht hrun hmid =>
    exact ⟨f, h.readHead ht hrun hmid, fun x hx => Or.inl hx, fun _ => Nat.le_refl _⟩
  | link t hmid =>
    refine ⟨_, h.link hmid, fun x hx => Or.inl ?_, fun _ => Nat.le_refl _⟩
    obtain ⟨w, hw⟩ := hx
    exact ⟨w, by rw [Function.update_of_ne (by simp)]; exact hw⟩
  | mark t hmid => exact ⟨f, h.mark hmid, fun x hx => Or.inl hx, fun _ => Nat.le_refl _⟩
  -- the task goes on, and its chain goes with the one it wakes
  | resume t ht hmid =>
    have hchain := h.woken t ((woken_iff hmid t).mpr ht)
    unfold State.leave
    obtain ⟨p, hp⟩ := Option.ne_none_iff_exists'.mp ht.1
    have hnext : s.next t = p := by
      unfold State.next
      rw [hp]
      rfl
    rw [hp]
    cases p with
    | none => exact ⟨f, h.leave hmid ht hnext, fun x hx => Or.inl hx, fun _ => Nat.le_refl _⟩
    | some u =>
      rw [hnext] at hchain
      cases hf : f (some t) with
      | nil =>
        rw [hf] at hchain
        cases hchain
      | cons a l =>
        rw [hf] at hchain
        obtain rfl : u = a := Option.some.inj hchain.1
        have hforest : Forest (State.wake { s with tmp := Function.update s.tmp t none } u)
            (Function.update (Function.update f (some t) []) (some u) l) := by
          have hmid' : (State.wake { s with tmp := Function.update s.tmp t none } u).mid = none := hmid
          refine h.wake hmid hmid' hf (fun x hx => ?_) (fun w hw => ?_) rfl rfl rfl rfl
          · have hxt : x ≠ t := fun heq => hx (congrArg some heq).symm
            exact Function.update_of_ne hxt ..
          · cases hw
            exact Function.update_self ..
        refine ⟨_, hforest, fun x hx => ?_, le_wake s.wakes u⟩
        rcases behind_wake h hmid hf x hx with rfl | hb
        · refine Or.inr ?_
          show s.wakes x < Function.update s.wakes x (s.wakes x + 1) x
          rw [Function.update_self]
          exact Nat.lt_succ_self _
        · exact Or.inl hb
  | wakeUp hfree =>
    obtain ⟨f', hkept, -⟩ := kept_wakeUp h hfree
    exact ⟨f', hkept⟩
  | other t x ht =>
    have hasleep : ∀ y, (s.setState t x).Asleep y ↔ s.Asleep y := by
      intro y
      unfold State.Asleep State.setState
      by_cases hy : y = t
      · subst hy
        simp [ht]
      · simp [hy]
    have hruns : ∀ y, (s.setState t x).Runs y ↔ s.Runs y := by
      intro y
      unfold State.Runs State.setState
      by_cases hy : y = t
      · subst hy
        simp [ht]
      · simp [hy]
    have hforest : Forest (s.setState t x) f := by
      refine h.same rfl (fun _ _ => rfl) (fun y => ?_) (fun y => ?_) (fun y hy => ?_) (fun y => ?_)
        (fun y p hp => (hruns y).mpr (h.mid y p hp)) h.read h.marks
      · exact or_congr_left (hasleep y)
      · exact and_congr_left fun _ => hruns y
      · exact (h.states y hy).imp (hasleep y).mpr (hruns y).mpr
      · simp only [hasleep y]
        exact h.counts y
    exact ⟨f, hforest, fun y hy => Or.inl hy, fun _ => Nat.le_refl _⟩

theorem forest_idle (h : Idle s) : Forest s fun _ => [] := by
  obtain ⟨hhead, htmp, hmid, hcounts⟩ := h
  have hno : ∀ t, ¬ s.Asleep t := fun t ha => ha.1 (htmp t)
  refine ⟨hhead, fun w hw => absurd (htmp w) hw.1.1, fun _ hne => absurd rfl hne,
    fun _ _ hx => (by cases hx), fun _ _ _ hx => (by cases hx),
    fun t hl => absurd ((linked_iff hmid t).mp hl) (hno t), fun t ht => absurd (htmp t) ht, fun t => ?_,
    fun t p hp => ?_, fun t ht => ?_, fun t ht => ?_⟩
  · rw [if_neg (hno t), hcounts t]
    rfl
  · rw [hmid] at hp
    cases hp
  · rw [hmid] at ht
    cases ht
  · rw [hmid] at ht
    cases ht

theorem forest_reach {s₀ : State} (h₀ : Idle s₀) (hrun : Reach State.Undisturbed s₀ s) : ∃ f, Forest s f := by
  induction hrun with
  | refl => exact ⟨_, forest_idle h₀⟩
  | tail _ hs ih =>
    obtain ⟨f, h⟩ := ih
    obtain ⟨f', hkept⟩ := kept_step h hs
    exact ⟨f', hkept.forest⟩

/-- A task hangs from one that was woken until it is made runnable itself. -/
theorem behind_reach {n t : Nat} (h : Forest s f) (hle : n ≤ s.wakes t)
    (hb : Behind f t ∨ n < s.wakes t) (hrun : Reach State.Undisturbed s s') :
    ∃ f', Forest s' f' ∧ n ≤ s'.wakes t ∧ (Behind f' t ∨ n < s'.wakes t) := by
  induction hrun with
  | refl => exact ⟨f, h, hle, hb⟩
  | tail _ hs ih =>
    obtain ⟨f₁, h₁, hle₁, hb₁⟩ := ih
    obtain ⟨f₂, hkept⟩ := kept_step h₁ hs
    have hmono := hkept.wakes t
    refine ⟨f₂, hkept.forest, by omega, ?_⟩
    rcases hb₁ with hb₁ | hlt
    · rcases hkept.behind t hb₁ with hb₂ | hlt
      · exact Or.inl hb₂
      · exact Or.inr (by omega)
    · exact Or.inr (by omega)

/-- **No sleeper is forgotten.** Whatever tasks sleep and whoever is woken, if no `wake_up`
that finds somebody comes between the stores of a task on its way in: a task that sleeps is
on one chain, once, that of the queue or of a task that was woken; it is made runnable once
for each sleep; and after a `wake_up`, when those that were woken have gone on, all that
slept have been made runnable. -/
theorem sleep_on_kept {s₀ s : State} (h₀ : Idle s₀) (hrun : Reach State.Undisturbed s₀ s) :
    (∃ f : Option Nat → List Nat, Chain s.next s.head (f none) ∧
      (∀ w, s.Woken w → Chain s.next (s.next w) (f (some w))) ∧
      (∀ w, f (some w) ≠ [] → s.Woken w) ∧
      ∀ t, s.Asleep t → ∃ o, (f o).count t = 1 ∧ ∀ o', t ∈ f o' → o' = o) ∧
    (∀ t, s.sleeps t = s.wakes t + if s.Asleep t then 1 else 0) ∧
    (s.Undisturbed → ∀ s', Reach State.Undisturbed s.wakeUp s' → (∀ w, ¬ s'.Woken w) →
      ∀ t, s.Asleep t → s.wakes t < s'.wakes t) := by
  obtain ⟨f, h⟩ := forest_reach h₀ hrun
  refine ⟨⟨f, h.head, h.woken, h.only, fun t ht => ?_⟩, h.counts, fun hfree s' hrun' hquiet t ht => ?_⟩
  · obtain ⟨o, ho⟩ := h.all t (Or.inl ht)
    refine ⟨o, ?_, fun o' ho' => h.one o o' t ho ho'⟩
    have hnodup : (f o).Nodup := by
      cases o with
      | none => exact h.head.nodup
      | some w => exact (h.woken w (h.only w (List.ne_nil_of_mem ho))).nodup
    exact List.count_eq_one_of_mem hnodup ho
  · obtain ⟨f₁, hkept, hall⟩ := kept_wakeUp h hfree
    obtain ⟨f', hforest, -, hb | hlt⟩ := behind_reach hkept.forest (hkept.wakes t) (hall t ht) hrun'
    · obtain ⟨w, hw⟩ := hb
      exact absurd (hforest.only w (List.ne_nil_of_mem hw)) (hquiet w)
    · exact hlt

/-- A queue that is not used, and tasks that run. -/
def quiet : State := ⟨none, fun _ => none, fun _ => .running, none, fun _ => 0, fun _ => 0⟩

theorem idle_quiet : Idle quiet := ⟨rfl, fun _ => rfl, rfl, fun _ => rfl⟩

/-- A task goes to sleep with no interrupt in between. -/
theorem reach_enter {allow : State → Prop} {t : Nat} (ht : s.tmp t = none) (hrun : s.state t = .running)
    (hmid : s.mid = none) : Reach allow s (s.enter t .uninterruptible) :=
  .tail (.tail (.tail .refl (.read t ht hrun hmid)) (.link t rfl)) (.mark t rfl)

/-- Two tasks sleep, are woken and go on. -/
theorem sleep_on_kept_two :
    0 < ((((quiet.enter 1 .uninterruptible).enter 2 .uninterruptible).wakeUp.leave 2).leave 1).wakes 1 ∧
    0 < ((((quiet.enter 1 .uninterruptible).enter 2 .uninterruptible).wakeUp.leave 2).leave 1).wakes 2 := by
  have hrun : Reach State.Undisturbed quiet ((quiet.enter 1 .uninterruptible).enter 2 .uninterruptible) :=
    (reach_enter rfl rfl rfl).trans (reach_enter rfl rfl rfl)
  have hafter : Reach State.Undisturbed ((quiet.enter 1 .uninterruptible).enter 2 .uninterruptible).wakeUp
      ((((quiet.enter 1 .uninterruptible).enter 2 .uninterruptible).wakeUp.leave 2).leave 1) :=
    .tail (.tail .refl (.resume 2 ⟨by decide, by decide⟩ rfl)) (.resume 1 ⟨by decide, by decide⟩ rfl)
  obtain ⟨-, -, hwoken⟩ := sleep_on_kept idle_quiet hrun
  have hall := hwoken (Or.inl rfl) _ hafter fun w hw => hw.1.1 (by
    show Function.update (Function.update (Function.update (Function.update quiet.tmp 1 (some none))
      2 (some (some 1))) 2 none) 1 none w = none
    simp only [Function.update_apply]
    split_ifs <;> rfl)
  exact ⟨hall 1 ⟨by decide, by decide⟩, hall 2 ⟨by decide, by decide⟩⟩

/-- The request that task 1 waits for is done between `*p = current` and the store of its
state: it sleeps, and is on no chain. -/
theorem sleep_on_forgets :
    ¬ ∀ s : State, Reach (fun _ => True) quiet s → ∃ f : Option Nat → List Nat, Chain s.next s.head (f none) ∧
      (∀ w, f (some w) ≠ [] → s.Woken w) ∧ ∀ t, s.Asleep t → ∃ o, t ∈ f o := by
  intro h
  obtain ⟨f, hhead, honly, hall⟩ := h ((((quiet.read 1).link 1).wakeUp).mark 1 .uninterruptible)
    (.tail (.tail (.tail (.tail .refl (.read 1 rfl rfl rfl)) (.link 1 rfl)) (.wakeUp trivial)) (.mark 1 rfl))
  have hnone : f none = [] := Chain.functional hhead rfl
  obtain ⟨o, ho⟩ := hall 1 ⟨by decide, by decide⟩
  cases o with
  | none =>
    rw [hnone] at ho
    cases ho
  | some w =>
    -- nobody else is in the function
    obtain ⟨⟨hin, hrun⟩, -⟩ := honly w (List.ne_nil_of_mem ho)
    by_cases hw : w = 1
    · subst hw
      exact absurd hrun (by decide)
    · exact hin (Function.update_of_ne hw ..)

/-! ## `interruptible_sleep_on` -/

/-- Suspended in the function. -/
def State.Suspended (s : State) (t : Nat) : Prop := s.tmp t ≠ none ∧ s.state t = .interruptible

/-- One task has the other in its `tmp`. -/
def State.Points (s : State) (x y : Nat) : Prop := s.tmp x = some (some y)

/-- On the queue. -/
def State.Queued (s : State) (t : Nat) : Prop :=
  ∃ h, s.head = some h ∧ Relation.ReflTransGen s.Points h t

/-- Reached from the queue, or from a task that is runnable in the function. -/
def State.Reached (s : State) (t : Nat) : Prop :=
  s.Queued t ∨ ∃ r, s.Runs r ∧ Relation.TransGen s.Points r t

/-- Any number of tasks that use the queue with `interruptible_sleep_on` and `wake_up`, and
get signals. `allow` restricts the tasks that change their state to sleep. -/
inductive IStep (allow : State → Nat → Prop) : State → State → Prop
  | read {s : State} (t : Nat) (ht : s.tmp t = none) (hrun : s.state t = .running) (hmid : s.mid = none) :
      IStep allow s (s.read t)
  | link {s : State} (t : Nat) (hmid : s.mid = some (t, .link)) : IStep allow s (s.link t)
  | mark {s : State} (t : Nat) (hmid : s.mid = some (t, .mark)) (hallow : allow s t) :
      IStep allow s (s.mark t .interruptible)
  | resume {s : State} (t : Nat) (ht : s.Runs t) (hmid : s.mid = none) : IStep allow s (s.interruptible t)
  | wakeUp {s : State} : IStep allow s s.wakeUp
  /-- `schedule` finds a signal. -/
  | signal {s : State} (t : Nat) (ht : s.Suspended t) : IStep allow s (s.wake t)
  | other {s : State} (t : Nat) (x : TaskState) (ht : s.tmp t = none) : IStep allow s (s.setState t x)

abbrev IReach (allow : State → Nat → Prop) : State → State → Prop :=
  Relation.ReflTransGen (IStep allow)

/-- Nobody is forgotten, and the queue begins with a task that is in the function. A task
that has read the queue has what is there, unless it has been emptied. -/
structure Safe (s : State) : Prop where
  reached : ∀ t, s.Suspended t → s.Reached t
  head    : ∀ h, s.head = some h → s.tmp h ≠ none
  inside  : ∀ t p, s.mid = some (t, p) → s.tmp t ≠ none
  read    : ∀ t, s.mid = some (t, .link) → s.tmp t = some s.head ∨ s.head = none

/-- Without the pointer of `t`, what it led to is reached from the task before it. -/
theorem reach_without {t a z : Nat} (hs : ∀ x, x ≠ t → s'.tmp x = s.tmp x)
    (hz : z ≠ t) (h : Relation.ReflTransGen s.Points a z) :
    Relation.ReflTransGen s'.Points a z ∨
      ∃ u, s.tmp t = some (some u) ∧ Relation.ReflTransGen s'.Points u z := by
  induction h using Relation.ReflTransGen.head_induction_on with
  | refl => exact Or.inl .refl
  | @head a b hab _ ih =>
    rcases ih with hleft | hright
    · by_cases hat : a = t
      · subst hat
        exact Or.inr ⟨b, hab, hleft⟩
      · refine Or.inl (.head ?_ hleft)
        unfold State.Points at hab ⊢
        rw [hs a hat]
        exact hab
    · exact Or.inr hright

theorem leave_tmp (t : Nat) : (s.leave t).tmp = Function.update s.tmp t none := by
  unfold State.leave
  split <;> rfl

theorem leave_head (t : Nat) : (s.leave t).head = s.head := by
  unfold State.leave
  split <;> rfl

theorem leave_mid (t : Nat) : (s.leave t).mid = s.mid := by
  unfold State.leave
  split <;> rfl

theorem leave_state (t x : Nat) :
    (s.leave t).state x = if s.tmp t = some (some x) then .running else s.state x := by
  unfold State.leave
  split
  · rename_i u hu
    show Function.update s.state u .running x = _
    rw [hu]
    by_cases hxu : x = u
    · rw [hxu, Function.update_self, if_pos rfl]
    · rw [Function.update_of_ne hxu, if_neg (by simpa using Ne.symm hxu)]
  · rename_i hno
    rw [if_neg (hno x)]

theorem suspended_leave {t z : Nat} (h : (s.leave t).Suspended z) :
    z ≠ t ∧ s.tmp t ≠ some (some z) ∧ s.Suspended z := by
  obtain ⟨htmp, hstate⟩ := h
  rw [leave_tmp] at htmp
  rw [leave_state] at hstate
  have hzt : z ≠ t := by
    rintro rfl
    exact htmp (Function.update_self ..)
  rw [Function.update_of_ne hzt] at htmp
  split at hstate
  · cases hstate
  · rename_i hno
    exact ⟨hzt, hno, htmp, hstate⟩

/-- What hung from a task that leaves hangs from the task it has made runnable. -/
theorem reached_leave {t z : Nat} (hsus : (s.leave t).Suspended z)
    (hr : ∃ r, s.Runs r ∧ Relation.TransGen s.Points r z) :
    ∃ r, (s.leave t).Runs r ∧ Relation.TransGen (s.leave t).Points r z := by
  obtain ⟨r, hr, hpath⟩ := hr
  obtain ⟨hzt, hnext, hz⟩ := suspended_leave hsus
  have hsame : ∀ x, x ≠ t → (s.leave t).tmp x = s.tmp x := fun x hx => by
    rw [leave_tmp, Function.update_of_ne hx]
  -- a task with something after it has not left
  have hstart : ∀ a, a ≠ z → (s.leave t).state a = .running →
      Relation.ReflTransGen (s.leave t).Points a z →
      ∃ r, (s.leave t).Runs r ∧ Relation.TransGen (s.leave t).Points r z := by
    intro a haz hrun hap
    rcases Relation.reflTransGen_iff_eq_or_transGen.mp hap with heq | htrans
    · exact absurd heq.symm haz
    · obtain ⟨b, hab, -⟩ := Relation.TransGen.head'_iff.mp htrans
      refine ⟨a, ⟨?_, hrun⟩, htrans⟩
      unfold State.Points at hab
      rw [hab]
      simp
  rcases reach_without hsame hzt hpath.to_reflTransGen with hleft | ⟨u, hu, hright⟩
  · refine hstart r ?_ ?_ hleft
    · rintro rfl
      have hstate := hz.2
      rw [hr.2] at hstate
      cases hstate
    · rw [leave_state, hr.2, ite_self]
  · refine hstart u ?_ ?_ hright
    · rintro rfl
      exact hnext hu
    · rw [leave_state, if_pos hu]

/-- A task leaves; what was on the queue is reached otherwise. -/
theorem safe_leave (hmid : s.mid = none) {t : Nat} (hhead : s.head = none)
    (hr : ∀ x, s.Suspended x → x ≠ t → ∃ r, s.Runs r ∧ Relation.TransGen s.Points r x) :
    Safe (s.leave t) := by
  refine ⟨fun x hx => Or.inr ?_, fun x hx => ?_, fun x p hx => ?_, fun x hx => ?_⟩
  · obtain ⟨hxt, -, hxs⟩ := suspended_leave hx
    exact reached_leave hx (hr x hxs hxt)
  · rw [leave_head, hhead] at hx
    cases hx
  · rw [leave_mid, hmid] at hx
    cases hx
  · rw [leave_mid, hmid] at hx
    cases hx

/-- The tasks that are made runnable are the only ones whose state changes. -/
theorem safe_wake (h : Safe s) (u : Nat) (ht : s'.tmp = s.tmp) (hh : s'.head = s.head)
    (hs : s'.state = Function.update s.state u .running)
    (hinside : ∀ t p, s'.mid = some (t, p) → s.tmp t ≠ none)
    (hread : ∀ t, s'.mid = some (t, .link) → s.mid = some (t, .link)) : Safe s' := by
  have hpoints : s'.Points = s.Points := by
    unfold State.Points
    rw [ht]
  refine ⟨fun x hx => ?_, fun x hx => ?_, fun x p hx => ?_, fun x hx => ?_⟩
  · have hxu : x ≠ u := by
      rintro rfl
      have hstate := hx.2
      rw [hs, Function.update_self] at hstate
      cases hstate
    have hxs : s.Suspended x := by
      refine ⟨?_, ?_⟩
      · rw [← ht]
        exact hx.1
      · rw [← Function.update_of_ne hxu .running s.state, ← hs]
        exact hx.2
    rcases h.reached x hxs with ⟨q, hq, hpath⟩ | ⟨r, hr, hpath⟩
    · exact Or.inl ⟨q, by rw [hh, hq], by rw [hpoints]; exact hpath⟩
    · refine Or.inr ⟨r, ⟨by rw [ht]; exact hr.1, ?_⟩, by rw [hpoints]; exact hpath⟩
      rw [hs, Function.update_apply, hr.2, ite_self]
  · rw [ht]
    exact h.head x (by rw [← hh, hx])
  · rw [ht]
    exact hinside x p hx
  · rw [ht, hh]
    exact h.read x (hread x hx)

theorem safe_read (h : Safe s) {t : Nat} (ht : s.tmp t = none) (hrun : s.state t = .running) :
    Safe (s.read t) := by
  have htmp : (s.read t).tmp = Function.update s.tmp t (some s.head) := rfl
  have hother : ∀ x, s.tmp x ≠ none → x ≠ t := by
    rintro x hx rfl
    exact hx ht
  have hpoints : ∀ x y, s.Points x y → (s.read t).Points x y := by
    intro x y hxy
    unfold State.Points at hxy ⊢
    rw [htmp, Function.update_of_ne (hother x (by rw [hxy]; simp)), hxy]
  have hself : (s.read t).tmp t = some s.head := Function.update_self ..
  refine ⟨fun x hx => ?_, fun x hx => ?_, fun x p hx => ?_, fun x hx => ?_⟩
  · have hxt : x ≠ t := by
      rintro rfl
      exact absurd (hrun.symm.trans hx.2) (by simp)
    have hxs : s.Suspended x := by
      unfold State.Suspended at hx ⊢
      rw [htmp, Function.update_of_ne hxt] at hx
      exact hx
    rcases h.reached x hxs with ⟨q, hq, hpath⟩ | ⟨r, hr, hpath⟩
    · exact Or.inl ⟨q, hq, Relation.ReflTransGen.mono hpoints _ _ hpath⟩
    · refine Or.inr ⟨r, ⟨?_, hr.2⟩, Relation.TransGen.mono hpoints _ _ hpath⟩
      rw [htmp, Function.update_of_ne (hother r hr.1)]
      exact hr.1
  · have hin := h.head x hx
    rw [htmp, Function.update_of_ne (hother x hin)]
    exact hin
  · cases hx
    rw [hself]
    simp
  · cases hx
    exact Or.inl hself

/-- The task comes first on the queue, with those that were there behind it. -/
theorem safe_link (h : Safe s) {t : Nat} (hmid : s.mid = some (t, .link)) : Safe (s.link t) := by
  refine ⟨fun x hx => ?_, fun x hx => ?_, fun x p hx => ?_, fun x hx => by cases hx⟩
  · rcases h.reached x hx with ⟨q, hq, hpath⟩ | hr
    · refine Or.inl ⟨t, rfl, .head ?_ hpath⟩
      rcases h.read t hmid with htmp | hnone
      · rw [hq] at htmp
        exact htmp
      · rw [hnone] at hq
        cases hq
    · exact Or.inr hr
  · cases hx
    exact h.inside t _ hmid
  · cases hx
    exact h.inside t _ hmid

/-- The task sleeps, and is on the queue: what hung from it is behind it there. -/
theorem safe_mark (h : Safe s) {t : Nat} (hqueued : s.Queued t) : Safe (s.mark t .interruptible) := by
  have hstate : ∀ x, x ≠ t → (s.mark t .interruptible).state x = s.state x :=
    fun x hx => Function.update_of_ne hx ..
  refine ⟨fun x hx => ?_, h.head, fun x p hx => (by cases hx), fun x hx => (by cases hx)⟩
  by_cases hxt : x = t
  · rw [hxt]
    exact Or.inl hqueued
  · rcases h.reached x ⟨hx.1, (hstate x hxt).symm.trans hx.2⟩ with hq | ⟨r, hr, hpath⟩
    · exact Or.inl hq
    · by_cases hrt : r = t
      · obtain ⟨q, hq, hto⟩ := hqueued
        exact Or.inl ⟨q, hq, hto.trans (hrt ▸ hpath.to_reflTransGen)⟩
      · exact Or.inr ⟨r, ⟨hr.1, (hstate r hrt).trans hr.2⟩, hpath⟩

theorem safe_wakeUp (h : Safe s) : Safe s.wakeUp := by
  unfold State.wakeUp
  cases hq : s.head with
  | none => exact h
  | some q =>
    refine ⟨fun x hx => Or.inr ?_, fun x hx => (by cases hx), h.inside, fun _ _ => Or.inr rfl⟩
    have hxq : x ≠ q := by
      rintro rfl
      have hstate : Function.update s.state x .running x = .interruptible := hx.2
      rw [Function.update_self] at hstate
      cases hstate
    have hxs : s.Suspended x := by
      have hstate : Function.update s.state q .running x = .interruptible := hx.2
      rw [Function.update_of_ne hxq] at hstate
      exact ⟨hx.1, hstate⟩
    rcases h.reached x hxs with ⟨q', hq', hpath⟩ | ⟨r, hr, hpath⟩
    · rw [hq] at hq'
      cases hq'
      rcases Relation.reflTransGen_iff_eq_or_transGen.mp hpath with heq | htrans
      · exact absurd heq hxq
      · exact ⟨q, ⟨h.head q hq, Function.update_self ..⟩, htrans⟩
    · refine ⟨r, ⟨hr.1, ?_⟩, hpath⟩
      show Function.update s.state q .running r = .running
      rw [Function.update_apply, hr.2, ite_self]

/-- A task goes on: it is the first and leaves, or it makes the first one runnable. -/
theorem safe_resume (h : Safe s) {t : Nat} (ht : s.Runs t) (hmid : s.mid = none) :
    Safe (s.interruptible t) := by
  unfold State.interruptible
  cases hq : s.head with
  | none =>
    refine safe_leave hmid hq fun x hx _ => ?_
    rcases h.reached x hx with ⟨q, hq', -⟩ | hr
    · rw [hq] at hq'
      cases hq'
    · exact hr
  | some q =>
    dsimp only
    by_cases hqt : q = t
    · subst hqt
      rw [if_neg (not_not.mpr rfl)]
      -- what is behind it on the queue hangs from it
      have hbehind : ∀ x, s.Suspended x → x ≠ q → ∃ r, s.Runs r ∧ Relation.TransGen s.Points r x := by
        intro x hx hxq
        rcases h.reached x hx with ⟨q', hq', hpath⟩ | hr
        · rw [hq] at hq'
          cases hq'
          rcases Relation.reflTransGen_iff_eq_or_transGen.mp hpath with heq | htrans
          · exact absurd heq hxq
          · exact ⟨q, ht, htrans⟩
        · exact hr
      exact @safe_leave { s with head := none } hmid q rfl hbehind
    · rw [if_pos hqt]
      refine safe_wake h q rfl rfl rfl (fun x p hx => ?_) (fun x hx => by cases hx)
      cases hx
      exact ht.1

theorem safe_step (h : Safe s) (hs : IStep State.Queued s s') : Safe s' := by
  cases hs with
  | read t ht hrun _ => exact safe_read h ht hrun
  | link t hmid => exact safe_link h hmid
  | mark t _ hqueued => exact safe_mark h hqueued
  | resume t ht hmid => exact safe_resume h ht hmid
  | wakeUp => exact safe_wakeUp h
  | signal t _ => exact safe_wake h t rfl rfl rfl h.inside fun _ hx => hx
  | other t x ht =>
    have hne : ∀ y, s.tmp y ≠ none → y ≠ t := by
      rintro y hy rfl
      exact hy ht
    have hkeep : ∀ y, s.tmp y ≠ none → (s.setState t x).state y = s.state y :=
      fun y hy => Function.update_of_ne (hne y hy) ..
    refine ⟨fun y hy => ?_, h.head, h.inside, h.read⟩
    rcases h.reached y ⟨hy.1, (hkeep y hy.1).symm.trans hy.2⟩ with hq | ⟨r, hr, hpath⟩
    · exact Or.inl hq
    · exact Or.inr ⟨r, ⟨hr.1, (hkeep r hr.1).trans hr.2⟩, hpath⟩

/-- **No sleeper is forgotten.** If each task is on the queue when it changes its state to
sleep, on its way in or going back, a task that is suspended is always reached from the
queue or from a task that is runnable in the function. -/
theorem interruptible_sleep_on_kept {s₀ s : State} (h₀ : Idle s₀) (hrun : IReach State.Queued s₀ s)
    (t : Nat) (ht : s.Suspended t) : s.Reached t := by
  have hsafe : Safe s := by
    clear ht
    induction hrun with
    | refl =>
      refine ⟨fun x hx => absurd (h₀.2.1 x) hx.1, fun x hx => ?_, fun x p hx => ?_, fun x hx => ?_⟩
      · rw [h₀.1] at hx
        cases hx
      · rw [h₀.2.2.1] at hx
        cases hx
      · rw [h₀.2.2.1] at hx
        cases hx
    | tail _ hs ih => exact safe_step ih hs
  exact hsafe.reached t ht

/-- A task goes to sleep with no interrupt in between. -/
theorem ireach_enter {allow : State → Nat → Prop} {t : Nat} (ht : s.tmp t = none) (hrun : s.state t = .running)
    (hmid : s.mid = none) (hallow : allow ((s.read t).link t) t) :
    IReach allow s (s.enter t .interruptible) :=
  .tail (.tail (.tail .refl (.read t ht hrun hmid)) (.link t rfl)) (.mark t rfl hallow)

/-- A task has a signal and goes back to sleep behind another one. -/
theorem interruptible_sleep_on_kept_two :
    (((((quiet.enter 1 .interruptible).enter 2 .interruptible).wake 1).interruptible 1).mark 1
      .interruptible).Reached 1 := by
  have htwo : IReach State.Queued quiet ((quiet.enter 1 .interruptible).enter 2 .interruptible) :=
    (ireach_enter rfl rfl rfl ⟨1, rfl, .refl⟩).trans (ireach_enter rfl rfl rfl ⟨2, rfl, .refl⟩)
  exact interruptible_sleep_on_kept idle_quiet
    (.tail (.tail (.tail htwo (.signal 1 ⟨by decide, by decide⟩)) (.resume 1 ⟨by decide, by decide⟩ rfl))
      (.mark 1 rfl ⟨2, rfl, .single rfl⟩)) 1 ⟨by decide, by decide⟩

/-- Task 1 is woken, task 2 goes to sleep before it runs; task 1 goes back to sleep, and
task 2 leaves an empty queue. -/
theorem interruptible_sleep_on_forgets :
    ¬ ∀ s : State, IReach (fun _ _ => True) quiet s → ∀ t, s.Suspended t → s.Reached t := by
  intro h
  have hwoken : IReach (fun _ _ => True) quiet (quiet.enter 1 .interruptible).wakeUp :=
    (ireach_enter rfl rfl rfl trivial).tail .wakeUp
  have htwo : IReach (fun _ _ => True) quiet ((quiet.enter 1 .interruptible).wakeUp.enter 2 .interruptible) :=
    hwoken.trans (ireach_enter rfl rfl rfl trivial)
  have hlost := h
    ((((((quiet.enter 1 .interruptible).wakeUp.enter 2 .interruptible).interruptible 1).mark 1
      .interruptible).interruptible 2))
    (.tail (.tail (.tail htwo (.resume 1 ⟨by decide, by decide⟩ rfl)) (.mark 1 rfl trivial))
      (.resume 2 ⟨by decide, by decide⟩ rfl)) 1 ⟨by decide, by decide⟩
  rcases hlost with ⟨q, hq, -⟩ | ⟨r, ⟨hin, hrun⟩, -⟩
  · cases hq
  · by_cases hr : r = 1
    · subst hr
      exact absurd hrun (by decide)
    · refine hin ?_
      show Function.update (Function.update (Function.update quiet.tmp 1 (some none))
        2 (some none)) 2 none r = none
      simp only [Function.update_apply, if_neg hr]
      split_ifs <;> rfl

end Linux011.Kernel.Sleep
