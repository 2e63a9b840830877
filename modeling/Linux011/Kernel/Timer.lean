import Mathlib.Logic.Relation
import Mathlib.Data.List.Perm.Subperm
import Linux011.Lib.Chain

/-!
# Timers

`add_timer` and the part of `do_timer` that calls what is due. The list of timers holds,
for each, how much later it is due than the one before. A new timer is put at its place,
but the one after it is not told: it is late by as much as the new one is later than
the one before.

* `insertDelta`, `dues` — the list as differences, and as times;
* `addTimer_spec`, `doTimer_spec` — the code on it;
* `timers_on_time` — the runs in which every new timer is due last;
* `timer_late` — what happens otherwise.
-/

namespace Linux011.Kernel.Timer

open Linux011.Lib

variable {Fn : Type}

def timeRequests : Nat := 64

/-- `timer_list` and `next_timer`. -/
structure State (Fn : Type) where
  jiffies   : Nat → Int
  fn        : Nat → Option Fn
  next      : Nat → Option Nat
  nextTimer : Option Nat

inductive Panic
  | noMoreTimers
  | nullFunction
  /-- A loop does not end. -/
  | loops
  deriving DecidableEq, Repr

/-- The search for a free slot, from `p` on. -/
def State.findFree (s : State Fn) : Nat → Nat → Option Nat
  | 0, _ => none
  | n + 1, p => if (s.fn p).isNone then some p else s.findFree n (p + 1)

/-- A round of the loop of `add_timer`: the contents of `p` and `nx` are exchanged. -/
def State.exchange (s : State Fn) (p nx : Nat) : State Fn :=
  { s with
    jiffies := Function.update (Function.update s.jiffies p (s.jiffies nx)) nx
      (s.jiffies p - s.jiffies nx)
    fn := Function.update (Function.update s.fn p (s.fn nx)) nx (s.fn p) }

/-- The loop of `add_timer`. -/
def State.bubble (s : State Fn) : Nat → Nat → Except Panic (State Fn)
  | 0, _ => .error .loops
  | n + 1, p =>
    match s.next p with
    | none => .ok s
    | some nx =>
      if s.jiffies nx < s.jiffies p then (s.exchange p nx).bubble n nx
      else .ok s

/-- `add_timer`: the state, and what is called at once. -/
def addTimer (s : State Fn) (jiffies : Int) (fn : Option Fn) : Except Panic (State Fn × List Fn) :=
  match fn with
  | none => .ok (s, [])
  | some f =>
    if jiffies ≤ 0 then .ok (s, [f])
    else
      match s.findFree timeRequests 0 with
      | none => .error .noMoreTimers
      | some p => do
        let s : State Fn := {
          jiffies := Function.update s.jiffies p jiffies
          fn := Function.update s.fn p (some f)
          next := Function.update s.next p s.nextTimer
          nextTimer := some p }
        let s ← s.bubble (timeRequests + 1) p
        return (s, [])

/-- The loop of `do_timer`: the state, and what it calls. The functions add no timers. -/
def State.fire (s : State Fn) : Nat → Except Panic (State Fn × List Fn)
  | 0 => .error .loops
  | n + 1 =>
    match s.nextTimer with
    | none => .ok (s, [])
    | some p =>
      if s.jiffies p ≤ 0 then
        match s.fn p with
        | none => .error .nullFunction
        | some f => do
          let r ← { s with fn := Function.update s.fn p none, nextTimer := s.next p }.fire n
          return (r.1, f :: r.2)
      else .ok (s, [])

/-- `do_timer`. -/
def doTimer (s : State Fn) : Except Panic (State Fn × List Fn) :=
  match s.nextTimer with
  | none => .ok (s, [])
  | some p =>
    { s with jiffies := Function.update s.jiffies p (s.jiffies p - 1) }.fire (timeRequests + 1)

/-! ## Differences and times -/

/-- The place of a new timer among differences. -/
def insertDelta (t : Int) (f : Fn) : List (Int × Fn) → List (Int × Fn)
  | [] => [(t, f)]
  | (d, g) :: l => if d < t then (d, g) :: insertDelta (t - d) f l else (t, f) :: (d, g) :: l

/-- The times of timers, from `now` on. -/
def dues (now : Int) : List (Int × Fn) → List (Int × Fn)
  | [] => []
  | (d, g) :: l => (now + d, g) :: dues (now + d) l

@[simp] theorem dues_cons (now d : Int) (f : Fn) (l : List (Int × Fn)) :
    dues now ((d, f) :: l) = (now + d, f) :: dues (now + d) l := rfl

theorem dues_gt {now : Int} {l : List (Int × Fn)} (h : ∀ x, x ∈ l → 0 < x.1) :
    ∀ x, x ∈ dues now l → now < x.1 := by
  induction l generalizing now with
  | nil => simp [dues]
  | cons a l ih =>
    have ha := h a List.mem_cons_self
    intro x hx
    rcases List.mem_cons.mp hx with rfl | hx
    · dsimp only
      omega
    · have := ih (fun y hy => h y (List.mem_cons_of_mem a hy)) x hx
      omega

/-- A timer that is due last leaves the others as they are. -/
theorem dues_insertDelta {now t : Int} {f : Fn} {l : List (Int × Fn)}
    (hlast : ∀ x, x ∈ dues now l → x.1 < now + t) :
    dues now (insertDelta t f l) = dues now l ++ [(now + t, f)] := by
  induction l generalizing now t with
  | nil => rfl
  | cons a l ih =>
    obtain ⟨d, g⟩ := a
    have hd : d < t := by
      have := hlast (now + d, g) List.mem_cons_self
      dsimp only at this
      omega
    unfold insertDelta
    rw [if_pos hd]
    unfold dues
    rw [ih]
    · rw [show now + d + (t - d) = now + t by omega]
      rfl
    · intro x hx
      have := hlast x (List.mem_cons_of_mem _ hx)
      omega

theorem insertDelta_pos {t : Int} {f : Fn} {l : List (Int × Fn)} (ht : 0 < t)
    (h : ∀ x, x ∈ l → 0 < x.1) : ∀ x, x ∈ insertDelta t f l → 0 < x.1 := by
  induction l generalizing t with
  | nil => simp [insertDelta, ht]
  | cons a l ih =>
    unfold insertDelta
    split
    · next hlt =>
      have hrest := ih (t := t - a.1) (by omega) fun y hy => h y (List.mem_cons_of_mem a hy)
      simp only [List.mem_cons, forall_eq_or_imp]
      exact ⟨h a List.mem_cons_self, hrest⟩
    · simp only [List.mem_cons, forall_eq_or_imp]
      exact ⟨ht, h a List.mem_cons_self, fun y hy => h y (List.mem_cons_of_mem a hy)⟩

/-! ## The list in the slots -/

/-- The timers on the list are `l`. -/
inductive Holds (s : State Fn) : List Nat → List (Int × Fn) → Prop
  | nil : Holds s [] []
  | cons {p : Nat} {slots : List Nat} {f : Fn} {l : List (Int × Fn)} (hf : s.fn p = some f)
      (h : Holds s slots l) : Holds s (p :: slots) ((s.jiffies p, f) :: l)

/-- The slots on the list are those in use. -/
structure Listed (s : State Fn) (slots : List Nat) (l : List (Int × Fn)) : Prop where
  chain : Chain s.next s.nextTimer slots
  holds : Holds s slots l
  lt    : ∀ p, p ∈ slots → p < timeRequests
  free  : ∀ p, p < timeRequests → p ∉ slots → s.fn p = none

theorem Holds.length {s : State Fn} {slots : List Nat} {l : List (Int × Fn)} (h : Holds s slots l) :
    slots.length = l.length := by
  induction h with
  | nil => rfl
  | cons hf h ih => simp [ih]

theorem Holds.some {s : State Fn} {slots : List Nat} {l : List (Int × Fn)} (h : Holds s slots l) :
    ∀ p, p ∈ slots → s.fn p ≠ none := by
  induction h with
  | nil => simp
  | cons hf h ih => simp_all

/-- A list depends on its slots only. -/
theorem Holds.congr {s s' : State Fn} {slots : List Nat} {l : List (Int × Fn)} (h : Holds s slots l)
    (hs : ∀ p, p ∈ slots → s'.fn p = s.fn p ∧ s'.jiffies p = s.jiffies p) : Holds s' slots l := by
  induction h with
  | nil => exact .nil
  | @cons p slots f l hf h ih =>
    obtain ⟨hfn, hj⟩ := hs p List.mem_cons_self
    rw [← hj]
    exact .cons (hfn.trans hf) (ih fun q hq => hs q (List.mem_cons_of_mem p hq))

theorem findFree_spec {s : State Fn} {n p q : Nat} (h : s.findFree n p = some q) :
    p ≤ q ∧ q < p + n ∧ s.fn q = none := by
  induction n generalizing p with
  | zero => cases h
  | succ n ih =>
    unfold State.findFree at h
    split at h
    · next hfree =>
      obtain rfl := Option.some.inj h
      exact ⟨Nat.le_refl _, by omega, by simpa using hfree⟩
    · obtain ⟨hle, hlt, hfree⟩ := ih h
      exact ⟨by omega, by omega, hfree⟩

theorem findFree_none {s : State Fn} {n p : Nat} (h : s.findFree n p = none) :
    ∀ q, p ≤ q → q < p + n → s.fn q ≠ none := by
  induction n generalizing p with
  | zero => intro q _ _; omega
  | succ n ih =>
    unfold State.findFree at h
    split at h
    · cases h
    · next hused =>
      intro q hle hlt
      by_cases hq : q = p
      · subst hq
        simpa using hused
      · exact ih h q (by omega) (by omega)

/-- The loop of `add_timer` carries the new timer to its place. -/
theorem bubble_spec {s : State Fn} {p : Nat} {slots : List Nat} {f : Fn} {l : List (Int × Fn)}
    {n : Nat} (hchain : Chain s.next (some p) (p :: slots)) (hp : s.fn p = some f)
    (hl : Holds s slots l) (hn : slots.length < n) :
    ∃ s', s.bubble n p = .ok s' ∧ s'.next = s.next ∧ s'.nextTimer = s.nextTimer ∧
      Holds s' (p :: slots) (insertDelta (s.jiffies p) f l) ∧
      ∀ q, q ∉ p :: slots → s'.fn q = s.fn q ∧ s'.jiffies q = s.jiffies q := by
  induction slots generalizing s p f l n with
  | nil =>
    cases hl
    cases n with
    | zero => cases hn
    | succ n =>
      refine ⟨s, ?_, rfl, rfl, .cons hp .nil, fun _ _ => ⟨rfl, rfl⟩⟩
      unfold State.bubble
      rw [show s.next p = none from hchain.2]
  | cons nx slots ih =>
    cases n with
    | zero => cases hn
    | succ n =>
      cases hl with
      | @cons _ _ g l hg h =>
        have hnodup := hchain.nodup
        obtain ⟨hp', hnx⟩ := List.nodup_cons.mp hnodup
        have hpnx := List.ne_of_not_mem_cons hp'
        have hps := List.not_mem_of_not_mem_cons hp'
        have hnxs := (List.nodup_cons.mp hnx).1
        have hnext : s.next p = some nx := hchain.2.1
        unfold State.bubble insertDelta
        rw [hnext]
        dsimp only
        split
        · -- the two are exchanged
          have hrest : Holds (s.exchange p nx) slots l := by
            refine h.congr fun q hq => ?_
            have hqp : q ≠ p := fun heq => hps (heq ▸ hq)
            have hqn : q ≠ nx := fun heq => hnxs (heq ▸ hq)
            simp [State.exchange, hqp, hqn]
          have hf : (s.exchange p nx).fn nx = some f := by
            simp [State.exchange, hp]
          have hj : (s.exchange p nx).jiffies nx = s.jiffies p - s.jiffies nx := by
            simp [State.exchange]
          obtain ⟨s', hrun, hnext', hhead, hholds, hsame⟩ := ih (s := s.exchange p nx) (p := nx)
            (l := l) ⟨rfl, hchain.2.2⟩ hf hrest (Nat.lt_of_succ_lt_succ hn)
          obtain ⟨hfp, hjp⟩ := hsame p hp'
          have hfp' : s'.fn p = some g := by
            rw [hfp]
            simp [State.exchange, hpnx, hg]
          have hjp' : s'.jiffies p = s.jiffies nx := by
            rw [hjp]
            simp [State.exchange, hpnx]
          refine ⟨s', hrun, hnext', hhead, ?_, fun q hq => ?_⟩
          · rw [← hjp', hjp', ← hj, ← hjp']
            exact .cons hfp' hholds
          · have hqp := List.ne_of_not_mem_cons hq
            have hq' := List.not_mem_of_not_mem_cons hq
            have hqn := List.ne_of_not_mem_cons hq'
            obtain ⟨h1, h2⟩ := hsame q hq'
            rw [h1, h2]
            simp [State.exchange, hqp, hqn]
        · exact ⟨s, rfl, rfl, rfl, .cons hp (.cons hg h), fun _ _ => ⟨rfl, rfl⟩⟩

/-- A timer is added. -/
theorem addTimer_spec {s : State Fn} {slots : List Nat} {l : List (Int × Fn)} {t : Int} {f : Fn}
    (h : Listed s slots l) (ht : 0 < t) (hroom : l.length < timeRequests) :
    ∃ s' slots', addTimer s t (some f) = .ok (s', []) ∧ Listed s' slots' (insertDelta t f l) := by
  unfold addTimer
  dsimp only
  rw [if_neg (by omega)]
  cases hfind : s.findFree timeRequests 0 with
  | none =>
    -- then every slot is on the list
    have hall : List.range timeRequests ⊆ slots := by
      intro p hp
      have hlt := List.mem_range.mp hp
      by_contra hmem
      exact findFree_none hfind p (Nat.zero_le p) (by omega) (h.free p hlt hmem)
    have hlen := (List.Nodup.subperm List.nodup_range hall).length_le
    rw [List.length_range, h.holds.length] at hlen
    omega
  | some p =>
    obtain ⟨-, hlt, hfree⟩ := findFree_spec hfind
    rw [Nat.zero_add] at hlt
    have hp : p ∉ slots := fun hmem => h.holds.some p hmem hfree
    have hne : ∀ q, q ∈ slots → q ≠ p := fun q hq heq => hp (heq ▸ hq)
    have hchain : Chain (Function.update s.next p s.nextTimer) (some p) (p :: slots) := by
      refine ⟨rfl, ?_⟩
      rw [Function.update_self]
      exact h.chain.update hp
    dsimp only
    obtain ⟨s', hrun, hnext, hhead, hholds, hsame⟩ := bubble_spec (s := {
        jiffies := Function.update s.jiffies p t
        fn := Function.update s.fn p (some f)
        next := Function.update s.next p s.nextTimer
        nextTimer := some p }) (p := p) (f := f) (l := l) (n := timeRequests + 1)
      hchain (Function.update_self ..)
      (h.holds.congr fun q hq => by simp [hne q hq])
      (by rw [h.holds.length]; omega)
    refine ⟨s', p :: slots, ?_, ?_, ?_, ?_, ?_⟩
    · rw [hrun]
      rfl
    · rw [hnext, hhead]
      exact hchain
    · dsimp only at hholds
      rw [Function.update_self] at hholds
      exact hholds
    · intro q hq
      rcases List.mem_cons.mp hq with rfl | hq
      · exact hlt
      · exact h.lt q hq
    · intro q hq hmem
      rw [(hsame q hmem).1]
      dsimp only
      rw [Function.update_of_ne (List.ne_of_not_mem_cons hmem)]
      exact h.free q hq (List.not_mem_of_not_mem_cons hmem)

/-- Nothing is called while the head is not due. -/
theorem fire_rest {s : State Fn} {slots : List Nat} {l : List (Int × Fn)} {n : Nat}
    (h : Listed s slots l) (hl : ∀ x, x ∈ l → 0 < x.1) : s.fire (n + 1) = .ok (s, []) := by
  obtain ⟨hchain, hholds, -, -⟩ := h
  unfold State.fire
  cases hholds with
  | nil => rw [show s.nextTimer = none from hchain]
  | @cons p slots f l hf hholds =>
    have hpos := hl _ List.mem_cons_self
    dsimp only at hpos
    rw [hchain.1]
    dsimp only
    rw [if_neg (by omega)]

/-- The head is called, if it is due. -/
theorem doTimer_spec {s : State Fn} {slots : List Nat} {d : Int} {f : Fn} {l : List (Int × Fn)}
    (h : Listed s slots ((d, f) :: l)) (hd : 0 < d) (hl : ∀ x, x ∈ l → 0 < x.1) :
    ∃ s' slots', if d = 1 then doTimer s = .ok (s', [f]) ∧ Listed s' slots' l
      else doTimer s = .ok (s', []) ∧ Listed s' slots' ((d - 1, f) :: l) := by
  obtain ⟨hchain, hholds, hlt, hfree⟩ := h
  cases hholds with
  | @cons p slots _ _ hf hholds =>
    have hp := (List.nodup_cons.mp hchain.nodup).1
    have hne : ∀ q, q ∈ slots → q ≠ p := fun q hq heq => hp (heq ▸ hq)
    unfold doTimer
    rw [hchain.1]
    dsimp only
    unfold State.fire
    dsimp only
    have hself : Function.update s.jiffies p (s.jiffies p - 1) p = s.jiffies p - 1 :=
      Function.update_self ..
    by_cases hdue : s.jiffies p = 1
    · have hrest : Listed
          { s with
            jiffies := Function.update s.jiffies p (s.jiffies p - 1)
            fn := Function.update s.fn p none
            nextTimer := s.next p } slots l := by
        refine ⟨hchain.2, hholds.congr fun q hq => by simp [hne q hq],
          fun q hq => hlt q (List.mem_cons_of_mem p hq), fun q hq hqs => ?_⟩
        dsimp only
        by_cases hqp : q = p
        · rw [hqp, Function.update_self]
        · rw [Function.update_of_ne hqp]
          exact hfree q hq (List.not_mem_cons_of_ne_of_not_mem hqp hqs)
      refine ⟨{ s with
        jiffies := Function.update s.jiffies p (s.jiffies p - 1)
        fn := Function.update s.fn p none
        nextTimer := s.next p }, slots, ?_⟩
      rw [if_pos hdue, if_pos (by rw [hself]; omega), hf]
      dsimp only
      refine ⟨?_, hrest⟩
      -- the next one is not due
      have hstop := fire_rest (n := 63) hrest hl
      show (do
        let r ← State.fire _ timeRequests
        return (r.1, f :: r.2)) = _
      rw [show timeRequests = 63 + 1 from rfl, hstop]
      rfl
    · refine ⟨{ s with
        jiffies := Function.update s.jiffies p (s.jiffies p - 1)
        nextTimer := some p }, p :: slots, ?_⟩
      rw [if_neg hdue, if_neg (by rw [hself]; omega)]
      refine ⟨rfl, ⟨rfl, hchain.2⟩, ?_, hlt, hfree⟩
      have hcons : Holds { s with
          jiffies := Function.update s.jiffies p (s.jiffies p - 1)
          nextTimer := some p } (p :: slots)
          ((Function.update s.jiffies p (s.jiffies p - 1) p, f) :: l) :=
        .cons hf (hholds.congr fun q hq => by simp [hne q hq])
      rw [hself] at hcons
      exact hcons

/-- A tick: the functions called are those that are due. -/
theorem tick_spec {s : State Fn} {slots : List Nat} {l : List (Int × Fn)} (now : Int)
    (h : Listed s slots l) (hpos : ∀ x, x ∈ l → 0 < x.1) :
    ∃ s' slots' l', doTimer s = .ok (s', ((dues now l).filter (·.1 = now + 1)).map Prod.snd) ∧
      Listed s' slots' l' ∧ (∀ x, x ∈ l' → 0 < x.1) ∧
      dues (now + 1) l' = (dues now l).filter (now + 1 < ·.1) := by
  cases l with
  | nil =>
    have hempty : slots = [] := List.length_eq_zero_iff.mp h.holds.length
    subst hempty
    refine ⟨s, [], [], ?_, h, hpos, rfl⟩
    unfold doTimer
    rw [show s.nextTimer = none from h.chain]
    rfl
  | cons a l =>
    obtain ⟨d, f⟩ := a
    have hd : 0 < d := hpos (d, f) List.mem_cons_self
    have hl : ∀ x, x ∈ l → 0 < x.1 := fun x hx => hpos x (List.mem_cons_of_mem _ hx)
    obtain ⟨s', slots', hrun⟩ := doTimer_spec h hd hl
    -- what comes after the head is later than it
    have hgt : ∀ x, x ∈ dues (now + d) l → now + d < x.1 := dues_gt hl
    by_cases hdue : d = 1
    · rw [if_pos hdue] at hrun
      refine ⟨s', slots', l, ?_, hrun.2, hl, ?_⟩
      · rw [hrun.1]
        have hnone : (dues (now + d) l).filter (·.1 = now + 1) = [] := by
          rw [List.filter_eq_nil_iff]
          intro x hx
          have := hgt x hx
          simp
          omega
        simp [dues, hdue] at hnone ⊢
        exact hnone
      · have hall : (dues (now + d) l).filter (now + 1 < ·.1) = dues (now + d) l := by
          rw [List.filter_eq_self]
          intro x hx
          have := hgt x hx
          simp
          omega
        rw [hdue] at hall ⊢
        rw [dues_cons, List.filter_cons_of_neg (by simp), hall]
    · rw [if_neg hdue] at hrun
      have hlate : ∀ x, x ∈ dues now ((d, f) :: l) → now + 1 < x.1 := by
        intro x hx
        rcases List.mem_cons.mp hx with rfl | hx
        · dsimp only
          omega
        · have := hgt x hx
          omega
      refine ⟨s', slots', (d - 1, f) :: l, ?_, hrun.2, ?_, ?_⟩
      · rw [hrun.1]
        have hnone : (dues now ((d, f) :: l)).filter (·.1 = now + 1) = [] := by
          rw [List.filter_eq_nil_iff]
          intro x hx
          have := hlate x hx
          simp
          omega
        rw [hnone]
        rfl
      · simp only [List.mem_cons, forall_eq_or_imp]
        exact ⟨by omega, hl⟩
      · have hall : (dues now ((d, f) :: l)).filter (now + 1 < ·.1) = dues now ((d, f) :: l) := by
          rw [List.filter_eq_self]
          intro x hx
          simp [hlate x hx]
        rw [hall]
        unfold dues
        rw [show now + 1 + (d - 1) = now + d by omega]

/-! ## Runs -/

/-- The ticks so far and, for the specification, all timers that were added, with the
tick at which each is due. -/
structure Config (Fn : Type) where
  s     : State Fn
  now   : Int
  added : List (Int × Fn)

def Config.pending (c : Config Fn) : List (Int × Fn) := c.added.filter (c.now < ·.1)

/-- Calls of `add_timer` and `do_timer`, in any order. `allow` restricts the timers that
are added. -/
inductive Step (allow : Config Fn → Int → Prop) : Config Fn → Config Fn → Prop
  | add {c : Config Fn} (t : Int) (f : Fn) (s : State Fn) (calls : List Fn) (ht : 0 < t)
      (hroom : c.pending.length < timeRequests) (hallow : allow c t)
      (h : addTimer c.s t (some f) = .ok (s, calls)) :
      Step allow c ⟨s, c.now, (c.now + t, f) :: c.added⟩
  | tick {c : Config Fn} (s : State Fn) (calls : List Fn) (h : doTimer c.s = .ok (s, calls)) :
      Step allow c ⟨s, c.now + 1, c.added⟩

abbrev Reach (allow : Config Fn → Int → Prop) : Config Fn → Config Fn → Prop :=
  Relation.ReflTransGen (Step allow)

/-- No timers. -/
def boot : Config Fn := ⟨⟨fun _ => 0, fun _ => none, fun _ => none, none⟩, 0, []⟩

/-- The next tick calls what is due at it. -/
def OnTime (c : Config Fn) : Prop := ∃ s calls, doTimer c.s = .ok (s, calls) ∧
  calls.Perm ((c.added.filter (·.1 = c.now + 1)).map Prod.snd)

/-- The new timer is due after all others. -/
def Last (c : Config Fn) (t : Int) : Prop := ∀ x, x ∈ c.added → x.1 < c.now + t

/-- The list has the pending timers. -/
def Inv (c : Config Fn) : Prop := ∃ slots l, Listed c.s slots l ∧ (∀ x, x ∈ l → 0 < x.1) ∧
  (dues c.now l).Perm c.pending

theorem inv_boot : Inv (boot : Config Fn) :=
  ⟨[], [], ⟨rfl, .nil, fun p hp => (by cases hp), fun _ _ _ => rfl⟩, fun x hx => (by cases hx), .refl _⟩

theorem pending_next {c : Config Fn} {s : State Fn} :
    Config.pending ⟨s, c.now + 1, c.added⟩ = c.pending.filter (c.now + 1 < ·.1) := by
  unfold Config.pending
  rw [List.filter_filter]
  refine List.filter_congr fun x _ => ?_
  simp
  omega

theorem due_next (c : Config Fn) :
    c.added.filter (·.1 = c.now + 1) = c.pending.filter (·.1 = c.now + 1) := by
  unfold Config.pending
  rw [List.filter_filter]
  refine List.filter_congr fun x _ => ?_
  simp
  omega

theorem dues_length (now : Int) (l : List (Int × Fn)) : (dues now l).length = l.length := by
  induction l generalizing now with
  | nil => rfl
  | cons a l ih => simp [dues, ih]

theorem inv_step {c c' : Config Fn} (h : Inv c) (hs : Step Last c c') : Inv c' := by
  obtain ⟨slots, l, hlist, hpos, hperm⟩ := h
  cases hs with
  | add t f s calls ht hroom hlast hrun =>
    have hlen : l.length < timeRequests := by
      rw [← dues_length c.now l, hperm.length_eq]
      exact hroom
    obtain ⟨s', slots', hadd, hlist'⟩ := addTimer_spec (f := f) hlist ht hlen
    rw [hadd] at hrun
    cases hrun
    refine ⟨slots', _, hlist', insertDelta_pos ht hpos, ?_⟩
    have hdues : ∀ x, x ∈ dues c.now l → x.1 < c.now + t :=
      fun x hx => hlast x (List.mem_filter.mp (hperm.subset hx)).1
    dsimp only
    rw [dues_insertDelta hdues]
    unfold Config.pending
    rw [List.filter_cons_of_pos (by simp; omega)]
    exact (List.perm_append_singleton ..).trans (hperm.cons _)
  | tick s calls hrun =>
    obtain ⟨s', slots', l', htick, hlist', hpos', hdues⟩ := tick_spec c.now hlist hpos
    rw [htick] at hrun
    cases hrun
    refine ⟨slots', l', hlist', hpos', ?_⟩
    rw [pending_next]
    dsimp only
    rw [hdues]
    exact hperm.filter _

/-- **Timers on time.** If every new timer is due last, every tick calls what is due at it
and nothing else, and a timer can be added while there is room. -/
theorem timers_on_time {c : Config Fn} (hrun : Reach Last boot c) : OnTime c ∧
    ∀ t f, 0 < t → c.pending.length < timeRequests →
      ∃ s, addTimer c.s t (some f) = .ok (s, []) := by
  have hinv : Inv c := by
    induction hrun with
    | refl => exact inv_boot
    | tail _ hs ih => exact inv_step ih hs
  obtain ⟨slots, l, hlist, hpos, hperm⟩ := hinv
  refine ⟨?_, fun t f ht hroom => ?_⟩
  · obtain ⟨s', slots', l', htick, -⟩ := tick_spec c.now hlist hpos
    refine ⟨s', _, htick, ?_⟩
    rw [due_next]
    exact (hperm.filter _).map Prod.snd
  · have hlen : l.length < timeRequests := by
      rw [← dues_length c.now l, hperm.length_eq]
      exact hroom
    obtain ⟨s', slots', hadd, -⟩ := addTimer_spec (f := f) hlist ht hlen
    exact ⟨s', hadd⟩

/-- The state after a call that returns. -/
def after (s : State Fn) : Except Panic (State Fn × List Fn) → State Fn
  | .ok r => r.1
  | .error _ => s

/-- A timer for the next tick, and one for the tick after it. -/
theorem timers_on_time_two : ∃ c : Config Nat, c.added = [(2, 1), (1, 0)] ∧ OnTime c := by
  have hlast : Last ⟨after boot.s (addTimer (boot : Config Nat).s 1 (some 0)), 0, [(1, 0)]⟩ 2 := by
    intro x hx
    rw [List.mem_singleton.mp hx]
    decide
  have hrun : Reach Last (boot : Config Nat) ⟨_, 0, [(2, 1), (1, 0)]⟩ :=
    .tail (.tail .refl (.add 1 0 _ [] (by decide) (by decide) (fun _ hx => (by cases hx)) rfl))
      (.add 2 1 _ [] (by decide) (by decide) hlast rfl)
  exact ⟨_, rfl, (timers_on_time hrun).1⟩

/-- A timer for the next tick that is added after one for the tick after it makes that
late. -/
theorem timer_late : ¬ ∀ c : Config Nat, Reach (fun _ _ => True) boot c → OnTime c := by
  intro hall
  have hrun : Reach (fun _ _ => True) (boot : Config Nat) ⟨_, 1, [(1, 1), (2, 0)]⟩ :=
    .tail (.tail (.tail .refl (.add 2 0 _ [] (by decide) (by decide) trivial rfl))
      (.add 1 1 _ [] (by decide) (by decide) trivial rfl)) (.tick _ [1] rfl)
  obtain ⟨s, calls, htick, hperm⟩ := hall _ hrun
  have hcalls : calls = [] := by
    have hnothing := congrArg (Except.map Prod.snd) htick
    exact (Except.ok.inj hnothing).symm
  rw [hcalls] at hperm
  exact absurd hperm.length_eq (by decide)

end Linux011.Kernel.Timer
