import Mathlib.Data.Prod.Lex
import Mathlib.Data.List.Perm.Subperm
import Mathlib.Logic.Relation
import Linux011.Lib.Chain
import Linux011.Lib.Sweep

/-!
# Requests to block devices

`make_request`, `add_request` and `end_request`: the slots of `request[]`, the queue of
each device, which goes through them, and the locks of buffers. A task that runs is
stopped by interrupts only, that end requests; it lets others run where it sleeps.

`make_request` goes from one `Phase` to the next. What a request says but its device,
command, sector and buffer is left out.
-/

namespace Linux011.BlkDrv

open Linux011.Lib

def nrRequest : Nat := 32

inductive Rw
  | read
  | write
  | reada
  | writea
  deriving DecidableEq, Repr

/-- `READ`, `WRITE`, `READA`, `WRITEA`. -/
def Rw.code : Rw → Nat
  | read => 0
  | write => 1
  | reada => 2
  | writea => 3

/-- Whether it is for what may be needed later. -/
def Rw.ahead : Rw → Bool
  | reada => true
  | writea => true
  | _ => false

/-- The command without that. -/
def Rw.plain : Rw → Rw
  | reada => read
  | writea => write
  | rw => rw

/-- `struct request`, but `next`; the device is -1 if there is no request. -/
structure Request where
  dev    : Int
  cmd    : Rw
  sector : Nat
  bh     : Option Nat

/-- `struct buffer_head`, as far as requests use it. -/
structure Buffer where
  dev      : Nat
  blocknr  : Nat
  lock     : Bool
  dirt     : Bool
  uptodate : Bool

structure State where
  request : Nat → Request
  /-- `next` of each request. -/
  next    : Nat → Option Nat
  /-- `current_request` of each device. -/
  current : Nat → Option Nat
  bh      : Nat → Buffer

def major (dev : Int) : Nat := dev.toNat / 256

/-- `IN_ORDER`. -/
def inOrder (a b : Request) : Bool :=
  a.cmd.code < b.cmd.code || a.cmd.code = b.cmd.code &&
    (a.dev < b.dev || (a.dev = b.dev && a.sector < b.sector))

def State.setBuffer (s : State) (b : Nat) (x : Buffer) : State :=
  { s with bh := Function.update s.bh b x }

def State.unlock (s : State) (b : Nat) : State := s.setBuffer b { s.bh b with lock := false }

/-! ## Queues -/

/-- The loop of `add_request`: where the request goes. -/
def State.walk (s : State) (req : Nat) : Nat → Nat → Option Nat
  | 0, _ => none
  | n + 1, tmp =>
    match s.next tmp with
    | none => some tmp
    | some nx =>
      if (inOrder (s.request tmp) (s.request req) || !inOrder (s.request tmp) (s.request nx)) &&
          inOrder (s.request req) (s.request nx) then some tmp
      else s.walk req n nx

/-- `add_request`; none if its loop does not end. The driver that it starts on an empty
queue begins with `initRequest`. -/
def addRequest (s : State) (dev req : Nat) : Option State :=
  let s := { s with next := Function.update s.next req none }
  let s := match (s.request req).bh with
    | none => s
    | some b => s.setBuffer b { s.bh b with dirt := false }
  match s.current dev with
  | none => some { s with current := Function.update s.current dev (some req) }
  | some tmp =>
    (s.walk req nrRequest tmp).map fun tmp =>
      { s with next := Function.update (Function.update s.next req (s.next tmp)) tmp (some req) }

/-- `end_request`; none if there is no request. -/
def endRequest (s : State) (dev : Nat) (uptodate : Bool) : Option State :=
  (s.current dev).map fun i =>
    let s := match (s.request i).bh with
      | none => s
      | some b => s.setBuffer b { s.bh b with uptodate := uptodate, lock := false }
    { s with
      request := Function.update s.request i { s.request i with dev := -1 }
      current := Function.update s.current dev (s.next i) }

inductive Panic
  | requestListDestroyed
  | blockNotLocked
  deriving DecidableEq, Repr

/-- `INIT_REQUEST`. -/
def initRequest (s : State) (dev : Nat) : Except Panic Unit :=
  match s.current dev with
  | none => .ok ()
  | some i =>
    if major (s.request i).dev ≠ dev then .error .requestListDestroyed
    else
      match (s.request i).bh with
      | none => .ok ()
      | some b => if (s.bh b).lock then .ok () else .error .blockNotLocked

/-! ## Tasks -/

/-- A call of `make_request`. -/
structure Call where
  major : Nat
  rw    : Rw
  ahead : Bool
  bh    : Nat

/-- Where in `make_request` a task is. -/
inductive Phase
  | idle
  | lock (c : Call)
  | check (c : Call)
  | scan (c : Call)
  | fill (c : Call) (i : Nat)
  | add (c : Call) (i : Nat)

/-- The search for a free slot below `n`. -/
def State.findSlot (s : State) : Nat → Option Nat
  | 0 => none
  | n + 1 => if (s.request n).dev < 0 then some n else s.findSlot n

/-- Writes leave room for reads. -/
def limit (rw : Rw) : Nat := if rw = .read then nrRequest else nrRequest * 2 / 3

/-- `ll_rw_block` and the beginning of `make_request`. -/
def begin (s : State) (rw : Rw) (b : Nat) : Phase :=
  if rw.ahead && (s.bh b).lock then .idle
  else .lock ⟨major (s.bh b).dev, rw.plain, rw.ahead, b⟩

/-- `make_request`, a part at a time: whether the task goes on or sleeps, or has
returned. -/
def makeRequest (s : State) : Phase → Option (State × Phase × Bool)
  | .idle => some (s, .idle, false)
  | .lock c =>
    if (s.bh c.bh).lock then some (s, .lock c, false)
    else some (s.setBuffer c.bh { s.bh c.bh with lock := true }, .check c, true)
  | .check c =>
    if (c.rw = .write && !(s.bh c.bh).dirt) || (c.rw = .read && (s.bh c.bh).uptodate) then
      some (s.unlock c.bh, .idle, false)
    else some (s, .scan c, true)
  | .scan c =>
    match s.findSlot (limit c.rw) with
    | some i => some (s, .fill c i, true)
    | none => if c.ahead then some (s.unlock c.bh, .idle, false) else some (s, .scan c, false)
  | .fill c i =>
    let r : Request := ⟨(s.bh c.bh).dev, c.rw, (s.bh c.bh).blocknr * 2, some c.bh⟩
    some ({ s with
      request := Function.update s.request i r
      next := Function.update s.next i none }, .add c i, true)
  | .add c i => (addRequest s c.major i).map fun s => (s, .idle, false)

/-- The tasks and the one that runs. For the specification only, requests that were added
have numbers: how many there were, the one in each slot, and those that have ended. -/
structure Config where
  s         : State
  task      : Nat → Phase
  running   : Option Nat
  issued    : Nat
  ident     : Nat → Nat
  completed : List Nat

inductive Step : Config → Config → Prop
  /-- A task calls `ll_rw_block`. -/
  | call {c : Config} (t : Nat) (rw : Rw) (b : Nat) (hr : c.running = none) (ht : c.task t = .idle) :
      Step c { c with task := Function.update c.task t (begin c.s rw b), running := some t }
  /-- A task that sleeps is chosen. -/
  | resume {c : Config} (t : Nat) (hr : c.running = none) : Step c { c with running := some t }
  /-- The task that runs goes on. -/
  | run {c : Config} (t : Nat) (s : State) (p : Phase) (on : Bool) (hr : c.running = some t)
      (hadd : ∀ cl i, c.task t ≠ .add cl i) (h : makeRequest c.s (c.task t) = some (s, p, on)) :
      Step c { c with
        s := s, task := Function.update c.task t p, running := if on then some t else none }
  /-- It adds its request. -/
  | add {c : Config} (t : Nat) (cl : Call) (i : Nat) (s : State) (p : Phase) (on : Bool)
      (hr : c.running = some t) (ht : c.task t = .add cl i)
      (h : makeRequest c.s (c.task t) = some (s, p, on)) :
      Step c { c with
        s := s, task := Function.update c.task t p, running := if on then some t else none
        issued := c.issued + 1, ident := Function.update c.ident i c.issued }
  /-- A device has finished. -/
  | complete {c : Config} (dev : Nat) (uptodate : Bool) (i : Nat) (s : State)
      (hi : c.s.current dev = some i) (h : endRequest c.s dev uptodate = some s) :
      Step c { c with s := s, completed := c.ident i :: c.completed }
  /-- The contents of a buffer change. -/
  | touch {c : Config} (b : Nat) (dirt uptodate : Bool) :
      Step c { c with s := c.s.setBuffer b { c.s.bh b with dirt := dirt, uptodate := uptodate } }

abbrev Reach : Config → Config → Prop := Relation.ReflTransGen Step

/-- After `blk_dev_init`. -/
def Fresh (c : Config) : Prop :=
  (∀ i, i < nrRequest → (c.s.request i).dev = -1) ∧ (∀ d, c.s.current d = none) ∧
    (∀ b, (c.s.bh b).lock = false) ∧ (∀ t, c.task t = .idle) ∧ c.running = none ∧
    c.issued = 0 ∧ c.completed = []

/-! ## One queue -/

/-- What `IN_ORDER` compares. -/
abbrev Key := ℕ ×ₗ ℤ ×ₗ ℕ

def Request.key (r : Request) : Key := toLex (r.cmd.code, toLex (r.dev, r.sector))

theorem inOrder_iff (a b : Request) : inOrder a b = true ↔ a.key < b.key := by
  unfold inOrder Request.key
  rw [Prod.Lex.toLex_lt_toLex, Prod.Lex.toLex_lt_toLex]
  simp

def State.key (s : State) (i : Nat) : Key := (s.request i).key

theorem walk_spec (s : State) (req : Nat) {tmp : Nat} {l : List Nat} {n : Nat}
    (h : Chain s.next (some tmp) (tmp :: l)) (hn : l.length < n) :
    ∃ l₁ a l₂, tmp :: l = l₁ ++ a :: l₂ ∧ s.walk req n tmp = some a ∧
      (l₁ ++ a :: req :: l₂).map s.key = elevate (s.key req) ((tmp :: l).map s.key) := by
  induction l generalizing tmp n with
  | nil =>
    cases n with
    | zero => cases hn
    | succ n =>
      refine ⟨[], tmp, [], rfl, ?_, rfl⟩
      unfold State.walk
      rw [show s.next tmp = none from h.2]
  | cons nx l ih =>
    cases n with
    | zero => cases hn
    | succ n =>
      have hnext : s.next tmp = some nx := h.2.1
      unfold State.walk
      rw [hnext]
      simp only [Bool.and_eq_true, Bool.or_eq_true, Bool.not_eq_true', inOrder_iff,
        ← Bool.not_eq_true]
      unfold List.map elevate
      by_cases hgap : ((s.request tmp).key < (s.request req).key ∨
          ¬ (s.request tmp).key < (s.request nx).key) ∧ (s.request req).key < (s.request nx).key
      · rw [if_pos hgap]
        refine ⟨[], tmp, nx :: l, rfl, rfl, ?_⟩
        exact (if_pos hgap).symm
      · rw [if_neg hgap]
        obtain ⟨l₁, a, l₂, heq, hwalk, hkeys⟩ := ih ⟨rfl, h.2.2⟩ (Nat.lt_of_succ_lt_succ hn)
        refine ⟨tmp :: l₁, a, l₂, by rw [heq]; rfl, hwalk, ?_⟩
        refine Eq.trans ?_ (if_neg hgap).symm
        exact congrArg (s.key tmp :: ·) hkeys

/-- The flags of buffers but `b_dirt`. -/
def SameLocks (s s' : State) : Prop := ∀ b, (s'.bh b).lock = (s.bh b).lock ∧ (s'.bh b).dev = (s.bh b).dev

/-- What `add_request` does to the queue `q` of the device. -/
structure Added (s : State) (d req : Nat) (q q' : List Nat) (s' : State) : Prop where
  split   : ∃ l₁ l₂, q = l₁ ++ l₂ ∧ q' = l₁ ++ req :: l₂ ∧ (q ≠ [] → l₁ ≠ [])
  chain   : Chain s'.next (s'.current d) q'
  keys    : q'.map s.key = elevate (s.key req) (q.map s.key)
  request : s'.request = s.request
  next    : ∀ a, a ∉ q → a ≠ req → s'.next a = s.next a
  current : ∀ d', d' ≠ d → s'.current d' = s.current d'
  locks   : SameLocks s s'

theorem addRequest_spec {s : State} {d req : Nat} {q : List Nat} (h : Chain s.next (s.current d) q)
    (hlt : ∀ i, i ∈ q → i < nrRequest) (hr : req ∉ q) :
    ∃ s' q', addRequest s d req = some s' ∧ Added s d req q q' s' := by
  -- after the first assignments
  obtain ⟨s₁, hs₁, hrequest, hnext, hcurrent, hlocks⟩ : ∃ s₁ : State,
      (match (s.request req).bh with
        | none => { s with next := Function.update s.next req none }
        | some b => State.setBuffer { s with next := Function.update s.next req none } b
          { s.bh b with dirt := false }) = s₁ ∧
      s₁.request = s.request ∧ s₁.next = Function.update s.next req none ∧
      s₁.current = s.current ∧ SameLocks s s₁ := by
    refine ⟨_, rfl, ?_⟩
    cases (s.request req).bh with
    | none => exact ⟨rfl, rfl, rfl, fun b => ⟨rfl, rfl⟩⟩
    | some b =>
      refine ⟨rfl, rfl, rfl, fun b' => ?_⟩
      unfold State.setBuffer
      by_cases hb : b' = b
      · simp [hb]
      · simp [hb]
  have hchain : Chain s₁.next (s₁.current d) q := by
    rw [hnext, hcurrent]
    exact h.update hr
  have hkey : s₁.key = s.key := by
    unfold State.key
    rw [hrequest]
  have hadd : addRequest s d req = match s₁.current d with
      | none => some { s₁ with current := Function.update s₁.current d (some req) }
      | some tmp => (s₁.walk req nrRequest tmp).map fun tmp =>
        { s₁ with next := Function.update (Function.update s₁.next req (s₁.next tmp)) tmp (some req) } := by
    unfold addRequest
    rw [← hs₁]
  have hself : s₁.next req = none := by
    rw [hnext, Function.update_self]
  cases q with
  | nil =>
    rw [show s₁.current d = none from hchain] at hadd
    refine ⟨_, [req], hadd, ⟨[], [], rfl, rfl, fun hne => absurd rfl hne⟩, ?_, rfl, hrequest, ?_, ?_,
      hlocks⟩
    · exact ⟨Function.update_self .., hself⟩
    · intro a _ ha
      show s₁.next a = s.next a
      rw [hnext, Function.update_of_ne ha]
    · intro d' hd
      show Function.update s₁.current d (some req) d' = s.current d'
      rw [Function.update_of_ne hd, hcurrent]
  | cons tmp l =>
    rw [hchain.1] at hadd
    have hlen : (tmp :: l).length ≤ nrRequest := by
      have hsub : (tmp :: l) ⊆ List.range nrRequest := fun i hi => List.mem_range.mpr (hlt i hi)
      have hperm := (List.Nodup.subperm h.nodup hsub).length_le
      rw [List.length_range] at hperm
      exact hperm
    obtain ⟨l₁, a, l₂, hsplit, hwalk, hkeys⟩ := walk_spec s₁ req
      (l := l) ⟨rfl, hchain.2⟩ (Nat.lt_of_succ_le hlen)
    dsimp only at hadd
    rw [hwalk] at hadd
    rw [hkey] at hkeys
    refine ⟨_, l₁ ++ a :: req :: l₂, hadd, ⟨l₁ ++ [a], l₂, ?_, ?_, fun _ => by simp⟩, ?_, hkeys,
      hrequest, ?_, fun d' _ => congrFun hcurrent d', hlocks⟩
    · rw [hsplit, List.append_assoc]
      rfl
    · rw [List.append_assoc]
      rfl
    · rw [hsplit] at hchain hr
      exact hchain.insert hr
    · intro b hb hbr
      have hba : b ≠ a := by
        rintro rfl
        exact hb (hsplit ▸ List.mem_append_right l₁ List.mem_cons_self)
      show Function.update (Function.update s₁.next req (s₁.next a)) a (some req) b = s.next b
      rw [Function.update_of_ne hba, Function.update_of_ne hbr, hnext, Function.update_of_ne hbr]

/-- The head stays where it is. -/
theorem Added.head {s s' : State} {d req : Nat} {q q' : List Nat} (h : Added s d req q q' s')
    (hq : Chain s.next (s.current d) q) (hne : q ≠ []) : s'.current d = s.current d := by
  obtain ⟨l₁, l₂, rfl, rfl, hl⟩ := h.split
  cases l₁ with
  | nil => exact absurd rfl (hl hne)
  | cons a l₁ => exact h.chain.1.trans hq.1.symm

theorem Added.mem {s s' : State} {d req i : Nat} {q q' : List Nat} (h : Added s d req q q' s') :
    i ∈ q' ↔ i = req ∨ i ∈ q := by
  obtain ⟨l₁, l₂, rfl, rfl, -⟩ := h.split
  simp
  tauto

/-- What `end_request` does to a queue. -/
theorem endRequest_spec {s s' : State} {d i : Nat} {up : Bool} {q : List Nat}
    (h : Chain s.next (s.current d) (i :: q)) (hs : endRequest s d up = some s') :
    Chain s'.next (s'.current d) q ∧ s'.next = s.next ∧
      s'.request = Function.update s.request i { s.request i with dev := -1 } ∧
      (∀ d', d' ≠ d → s'.current d' = s.current d') ∧
      (∀ b, (s'.bh b).dev = (s.bh b).dev) ∧
      ∀ b, (s.request i).bh ≠ some b → (s'.bh b).lock = (s.bh b).lock := by
  unfold endRequest at hs
  rw [h.1, Option.map_some, Option.some.injEq] at hs
  subst hs
  cases hb : (s.request i).bh with
  | none =>
    refine ⟨?_, rfl, rfl, fun d' hd => Function.update_of_ne hd .., fun _ => rfl, fun _ _ => rfl⟩
    show Chain s.next (Function.update s.current d (s.next i) d) q
    rw [Function.update_self]
    exact h.2
  | some b =>
    refine ⟨?_, rfl, rfl, fun d' hd => Function.update_of_ne hd .., fun b' => ?_, fun b' hb' => ?_⟩
    · show Chain s.next (Function.update s.current d (s.next i) d) q
      rw [Function.update_self]
      exact h.2
    · by_cases hbb : b' = b
      · simp [State.setBuffer, hbb]
      · simp [State.setBuffer, hbb]
    · have hbb : b' ≠ b := by
        rintro rfl
        exact hb' rfl
      simp [State.setBuffer, hbb]

/-! ## The order of a queue -/

/-- Insertions into the queue of a device and removals of its head. `pending` are the
keys of the requests that were inserted and have not ended. -/
inductive QueueStep (d : Nat) : State × List Key → State × List Key → Prop
  | add {s s' : State} {pending : List Key} (i : Nat) (r : Request) (hi : i < nrRequest)
      (hfree : (s.request i).dev < 0) (hdev : 0 ≤ r.dev) (hnew : r.key ∉ pending)
      (h : addRequest { s with request := Function.update s.request i r } d i = some s') :
      QueueStep d (s, pending) (s', r.key :: pending)
  | done {s s' : State} {pending : List Key} (i : Nat) (up : Bool) (hi : s.current d = some i)
      (h : endRequest s d up = some s') :
      QueueStep d (s, pending) (s', pending.erase (s.key i))

/-- The queue has the pending requests, in two sweeps at most. -/
def Ordered (d : Nat) (c : State × List Key) : Prop :=
  ∃ q, Chain c.1.next (c.1.current d) q ∧ (∀ i, i ∈ q → i < nrRequest ∧ 0 ≤ (c.1.request i).dev) ∧
    (q.map c.1.key).Perm c.2 ∧ Sweeps (q.map c.1.key)

theorem map_key_update {s : State} {i : Nat} {r : Request} {q : List Nat} (hi : i ∉ q) :
    q.map (State.key { s with request := Function.update s.request i r }) = q.map s.key := by
  refine List.map_congr_left fun j hj => ?_
  have hne : j ≠ i := by
    rintro rfl
    exact hi hj
  unfold State.key
  dsimp only
  rw [Function.update_of_ne hne]

theorem ordered_step {d : Nat} {c c' : State × List Key} (h : Ordered d c) (hs : QueueStep d c c') :
    Ordered d c' := by
  obtain ⟨q, hq, hslots, hkeys, hsweeps⟩ := h
  cases hs with
  | @add s s' pending i r hi hfree hdev hnew hrun =>
    -- the slot was free, and what is queued is not
    have hiq : i ∉ q := by
      intro hmem
      have hge := (hslots i hmem).2
      exact absurd hfree (not_lt.mpr hge)
    obtain ⟨s'', q', hadd, hadded⟩ := addRequest_spec
      (s := { s with request := Function.update s.request i r }) hq (fun j hj => (hslots j hj).1) hiq
    obtain rfl : s'' = s' := Option.some.inj (hadd.symm.trans hrun)
    have hkey : State.key { s with request := Function.update s.request i r } i = r.key := by
      unfold State.key
      dsimp only
      rw [Function.update_self]
    have hmap := hadded.keys
    rw [hkey, map_key_update hiq] at hmap
    have hkey' : s''.key = State.key { s with request := Function.update s.request i r } := by
      unfold State.key
      rw [hadded.request]
    refine ⟨q', hadded.chain, ?_, ?_, ?_⟩
    · intro j hj
      show j < nrRequest ∧ 0 ≤ (s''.request j).dev
      rw [hadded.request]
      rcases hadded.mem.mp hj with rfl | hj
      · refine ⟨hi, ?_⟩
        show 0 ≤ (Function.update s.request j r j).dev
        rw [Function.update_self]
        exact hdev
      · have hne : j ≠ i := by
          rintro rfl
          exact hiq hj
        show j < nrRequest ∧ 0 ≤ (Function.update s.request i r j).dev
        rw [Function.update_of_ne hne]
        exact hslots j hj
    · rw [hkey', hmap]
      exact (elevate_perm _ _).trans (hkeys.cons r.key)
    · rw [hkey', hmap]
      exact sweeps_elevate hsweeps fun hmem => hnew (hkeys.subset hmem)
  | @done s s' pending i up hi hrun =>
    cases q with
    | nil =>
      rw [show s.current d = none from hq] at hi
      cases hi
    | cons j q =>
      obtain rfl : j = i := Option.some.inj (hq.1.symm.trans hi)
      have hnodup := hq.nodup
      obtain ⟨hchain, -, hrequest, -, -, -⟩ := endRequest_spec hq hrun
      have hjq : j ∉ q := (List.nodup_cons.mp hnodup).1
      have hmap : q.map s'.key = q.map s.key := by
        refine List.map_congr_left fun a ha => ?_
        have hne : a ≠ j := by
          rintro rfl
          exact hjq ha
        unfold State.key
        rw [hrequest, Function.update_of_ne hne]
      refine ⟨q, hchain, ?_, ?_, ?_⟩
      · intro a ha
        have hne : a ≠ j := by
          rintro rfl
          exact hjq ha
        show a < nrRequest ∧ 0 ≤ (s'.request a).dev
        rw [hrequest, Function.update_of_ne hne]
        exact hslots a (List.mem_cons_of_mem j ha)
      · show (q.map s'.key).Perm (pending.erase (s.key j))
        rw [hmap]
        have herase := hkeys.erase (s.key j)
        rw [List.map_cons, List.erase_cons_head] at herase
        exact herase
      · show Sweeps (q.map s'.key)
        rw [hmap]
        exact Sweeps.tail hsweeps

/-- Whatever is inserted, with keys that differ from those that are pending, and
whatever ends: the queue has what is pending, a request that is served stays at the head,
and at most one sweep follows the first. -/
theorem elevator_order {d : Nat} {s : State} {c : State × List Key} (hempty : s.current d = none)
    (hrun : Relation.ReflTransGen (QueueStep d) (s, []) c) :
    (∃ q, Chain c.1.next (c.1.current d) q ∧ (q.map c.1.key).Perm c.2 ∧ Sweeps (q.map c.1.key)) ∧
    ∀ (i : Nat) (r : Request), i < nrRequest → (c.1.request i).dev < 0 →
      0 ≤ r.dev → r.key ∉ c.2 →
      ∃ s', addRequest { c.1 with request := Function.update c.1.request i r } d i = some s' ∧
        (c.1.current d ≠ none → s'.current d = c.1.current d) := by
  have hinv : Ordered d c := by
    induction hrun with
    | refl => exact ⟨[], hempty, fun _ hi => (by cases hi), .refl _, [], [], rfl, .nil, .nil⟩
    | tail _ hs ih => exact ordered_step ih hs
  obtain ⟨q, hq, hslots, hkeys, hsweeps⟩ := hinv
  refine ⟨⟨q, hq, hkeys, hsweeps⟩, fun i r hi hfree hdev hnew => ?_⟩
  have hiq : i ∉ q := fun hmem => absurd hfree (not_lt.mpr (hslots i hmem).2)
  obtain ⟨s', q', hadd, hadded⟩ := addRequest_spec
    (s := { c.1 with request := Function.update c.1.request i r }) hq (fun j hj => (hslots j hj).1) hiq
  refine ⟨s', hadd, fun hne => hadded.head hq ?_⟩
  rintro rfl
  exact hne hq

/-- A disk without requests. -/
def idleDisk : State where
  request _ := ⟨-1, .read, 0, none⟩
  next _ := none
  current _ := none
  bh _ := ⟨0, 0, false, false, false⟩

/-- A read of a sector of the disk, put into slot `i`. -/
def readSector (s : State) (i sector : Nat) : State :=
  (addRequest { s with request := Function.update s.request i ⟨0x301, .read, sector, none⟩ } 3 i).getD s

/-- Sector 10 is served when 20 and 4 come. -/
theorem elevator_order_wrap :
    ∃ q, Chain (readSector (readSector (readSector idleDisk 0 10) 1 4) 2 20).next (some 0) q ∧
      Sweeps (q.map (readSector (readSector (readSector idleDisk 0 10) 1 4) 2 20).key) := by
  have hrun : Relation.ReflTransGen (QueueStep 3) (idleDisk, [])
      (readSector (readSector (readSector idleDisk 0 10) 1 4) 2 20, _) :=
    .tail (.tail (.tail .refl
      (.add 0 ⟨0x301, .read, 10, none⟩ (by decide) (by decide) (by decide) (by decide) rfl))
      (.add 1 ⟨0x301, .read, 4, none⟩ (by decide) (by decide) (by decide) (by decide) rfl))
      (.add 2 ⟨0x301, .read, 20, none⟩ (by decide) (by decide) (by decide) (by decide) rfl)
  obtain ⟨⟨q, hq, -, hsweeps⟩, -⟩ := elevator_order (d := 3) rfl hrun
  exact ⟨q, hq, hsweeps⟩

end Linux011.BlkDrv
