import Mathlib.Data.List.Chain
import Mathlib.Data.List.Nodup
import Mathlib.Logic.Function.Basic
import Mathlib.Tactic.Common

/-!
# Doubly linked lists

Nodes of type `ι` carry two optional pointers, given as functions `next` and
`prev`. Two shapes of list are described by the plain list of their nodes:

* `Ring` — circular, every `prev` mirrors a `next`;
* `Dll` — from a head pointer to a null pointer, the first `prev` given.

Main results: what the usual pointer assignments do to the list of nodes
(`ring_remove`, `ring_insert`, `dll_remove`, `dll_insert`), that a ring has no
beginning (`ring_rotate`), and that a list only depends on the pointers of its
own nodes (`Seg.congr`, `Dll.congr`).
-/

namespace Linux011.Lib

variable {ι : Type} {next prev next' prev' : ι → Option ι}

/-- `b` follows `a`, forward and backward. -/
def Linked (next prev : ι → Option ι) (a b : ι) : Prop := next a = some b ∧ prev b = some a

/-- A piece of a doubly linked list. -/
def Seg (next prev : ι → Option ι) (l : List ι) : Prop := l.IsChain (Linked next prev)

/-- A circular doubly linked list. -/
def Ring (next prev : ι → Option ι) : List ι → Prop
  | [] => False
  | a :: l => Seg next prev (a :: l ++ [a])

/-! ## Pieces -/

theorem seg_cons_cons {a b : ι} {l : List ι} :
    Seg next prev (a :: b :: l) ↔ Linked next prev a b ∧ Seg next prev (b :: l) :=
  List.isChain_cons_cons

theorem seg_split {c : ι} {l₁ l₂ : List ι} :
    Seg next prev (l₁ ++ c :: l₂) ↔ Seg next prev (l₁ ++ [c]) ∧ Seg next prev (c :: l₂) :=
  List.isChain_split

theorem seg_pair {a b : ι} : Seg next prev [a, b] ↔ Linked next prev a b := by
  rw [seg_cons_cons]
  exact ⟨fun h => h.1, fun h => ⟨h, .singleton _⟩⟩

/-- A piece depends on the `next` of all nodes but the last and the `prev` of
all but the first. -/
theorem Seg.congr {l : List ι} (h : Seg next prev l) (hn : ∀ x ∈ l.dropLast, next' x = next x)
    (hp : ∀ x ∈ l.tail, prev' x = prev x) : Seg next' prev' l := by
  induction l with
  | nil => exact .nil
  | cons a l ih =>
    cases l with
    | nil => exact .singleton _
    | cons b l =>
      obtain ⟨⟨h1, h2⟩, hrest⟩ := seg_cons_cons.mp h
      refine seg_cons_cons.mpr ⟨⟨?_, ?_⟩, ih hrest ?_ ?_⟩
      · rw [hn a (by simp)]
        exact h1
      · rw [hp b (by simp)]
        exact h2
      · intro x hx
        exact hn x (by rw [List.dropLast_cons_cons]; exact List.mem_cons_of_mem _ hx)
      · intro x hx
        exact hp x (List.mem_cons_of_mem _ hx)

/-! ## Rings -/

/-- A ring read from another node. -/
theorem ring_rotate {xs ys : List ι} (h : Ring next prev (xs ++ ys)) :
    Ring next prev (ys ++ xs) := by
  cases xs with
  | nil =>
    rw [List.append_nil]
    exact h
  | cons x xs =>
    cases ys with
    | nil =>
      rw [List.append_nil] at h
      exact h
    | cons y ys =>
      have h' : Seg next prev ((x :: xs) ++ y :: (ys ++ [x])) := by
        simpa [Ring] using h
      obtain ⟨h1, h2⟩ := seg_split.mp h'
      show Seg next prev (y :: (ys ++ x :: xs) ++ [y])
      have hgoal : Seg next prev ((y :: ys) ++ x :: (xs ++ [y])) := by
        refine seg_split.mpr ⟨?_, ?_⟩
        · simpa using h2
        · simpa using h1
      simpa using hgoal

/-- Nodes numbered as they follow. -/
theorem ring_range {f : Nat → ι} {n : Nat} (hpos : 0 < n)
    (h : ∀ k, k + 1 < n → Linked next prev (f k) (f (k + 1))) (hlast : Linked next prev (f (n - 1)) (f 0)) :
    Ring next prev ((List.range n).map f) := by
  obtain ⟨m, rfl⟩ := Nat.exists_eq_succ_of_ne_zero (Nat.ne_of_gt hpos)
  have hseg : Seg next prev ((List.range (m + 1)).map f ++ [f 0]) := by
    refine List.isChain_iff_getElem.mpr fun i hi => ?_
    rw [List.length_append, List.length_map, List.length_range, List.length_singleton] at hi
    by_cases hm : i + 1 < m + 1
    · rw [List.getElem_append_left (by simp; omega), List.getElem_append_left (by simpa using hm)]
      simpa using h i hm
    · have him : i = m := by omega
      subst him
      rw [List.getElem_append_left (by simp), List.getElem_append_right (by simp)]
      simpa using hlast
  rw [List.range_succ_eq_map, List.map_cons] at hseg ⊢
  exact hseg

/-- The node after a node of a ring is on it. -/
theorem Ring.next_mem {l : List ι} (h : Ring next prev l) {b x : ι} (hb : b ∈ l)
    (hx : next b = some x) : x ∈ l := by
  obtain ⟨xs, ys, rfl⟩ := List.append_of_mem hb
  have hrot : Ring next prev (b :: (ys ++ xs)) := ring_rotate h
  have hx' : x ∈ b :: (ys ++ xs) := by
    cases hl : ys ++ xs with
    | nil =>
      rw [hl] at hrot
      have hbb : next b = some b := (seg_pair.mp hrot).1
      rw [hbb] at hx
      cases hx
      exact List.mem_cons_self ..
    | cons y l =>
      rw [hl] at hrot
      have hby : next b = some y := (seg_cons_cons.mp hrot).1.1
      rw [hby] at hx
      cases hx
      simp
  simp only [List.mem_cons, List.mem_append] at hx' ⊢
  tauto

section Updates

variable [DecidableEq ι]

/-- Taking the first node out of a ring with others in it. -/
theorem ring_remove {b : ι} {l : List ι} (h : Ring next prev (b :: l)) (hnd : (b :: l).Nodup)
    (hne : l ≠ []) :
    ∃ p q, prev b = some p ∧ next b = some q ∧ p ∈ l ∧ l.head? = some q ∧
      Ring (Function.update next p (some q)) (Function.update prev q (some p)) l := by
  obtain ⟨q, l', rfl⟩ := List.exists_cons_of_ne_nil hne
  obtain ⟨ps, p, hlast⟩ : ∃ ps p, q :: l' = ps ++ [p] := by
    refine ⟨(q :: l').dropLast, (q :: l').getLast (by simp), ?_⟩
    rw [List.dropLast_append_getLast]
  obtain ⟨hbq, hseg⟩ := seg_cons_cons.mp h
  have hseg' : Seg next prev (ps ++ p :: [b]) := by
    have : q :: (l' ++ [b]) = ps ++ p :: [b] := by
      rw [← List.cons_append, hlast, List.append_assoc]
      rfl
    rw [← this]
    exact hseg
  obtain ⟨hinit, hpb⟩ := seg_split.mp hseg'
  have hpb := seg_pair.mp hpb
  have hnd' : (q :: l').Nodup := (List.nodup_cons.mp hnd).2
  have hps : p ∉ ps := by
    rw [hlast] at hnd'
    intro hp
    exact (List.disjoint_of_nodup_append hnd') hp (List.mem_singleton_self p)
  have hq : q ∉ l' := (List.nodup_cons.mp hnd').1
  refine ⟨p, q, hpb.2, hbq.1, ?_, rfl, ?_⟩
  · rw [hlast]
    simp
  · show Seg _ _ (q :: l' ++ [q])
    have heq : q :: l' ++ [q] = ps ++ p :: [q] := by
      rw [hlast, List.append_assoc]
      rfl
    rw [heq]
    refine seg_split.mpr ⟨?_, seg_pair.mpr ⟨Function.update_self .., Function.update_self ..⟩⟩
    refine Seg.congr hinit ?_ ?_
    · intro x hx
      rw [List.dropLast_concat] at hx
      exact Function.update_of_ne (by rintro rfl; exact hps hx) _ _
    · intro x hx
      rw [← hlast] at hx
      exact Function.update_of_ne (by rintro rfl; exact hq hx) _ _

/-- Putting a new node before the first one, at the end of the ring. -/
theorem ring_insert {a b : ι} {l : List ι} (h : Ring next prev (a :: l)) (hnd : (a :: l).Nodup)
    (hb : b ∉ a :: l) :
    ∃ z, prev a = some z ∧ z ∈ a :: l ∧
      Ring (Function.update (Function.update next b (some a)) z (some b))
        (Function.update (Function.update prev b (some z)) a (some b)) (a :: (l ++ [b])) := by
  obtain ⟨zs, z, hlast⟩ : ∃ zs z, a :: l = zs ++ [z] := by
    refine ⟨(a :: l).dropLast, (a :: l).getLast (by simp), ?_⟩
    rw [List.dropLast_append_getLast]
  have hseg : Seg next prev (zs ++ z :: [a]) := by
    have : a :: l ++ [a] = zs ++ z :: [a] := by
      rw [hlast, List.append_assoc]
      rfl
    rw [← this]
    exact h
  obtain ⟨hinit, hza⟩ := seg_split.mp hseg
  have hza := seg_pair.mp hza
  have hzs : z ∉ zs := by
    rw [hlast] at hnd
    intro hz
    exact (List.disjoint_of_nodup_append hnd) hz (List.mem_singleton_self z)
  have hz : z ∈ a :: l := by rw [hlast]; simp
  have hal : a ∉ l := (List.nodup_cons.mp hnd).1
  have hbz : b ≠ z := by
    rintro rfl
    exact hb hz
  have hba : b ≠ a := by
    rintro rfl
    exact hb (List.mem_cons_self ..)
  refine ⟨z, hza.2, hz, ?_⟩
  show Seg _ _ (a :: (l ++ [b]) ++ [a])
  have heq : a :: (l ++ [b]) ++ [a] = zs ++ z :: [b, a] := by
    rw [← List.cons_append, hlast]
    simp
  rw [heq]
  refine seg_split.mpr ⟨?_, seg_cons_cons.mpr ⟨⟨?_, ?_⟩, seg_pair.mpr ⟨?_, ?_⟩⟩⟩
  · refine Seg.congr hinit ?_ ?_
    · intro x hx
      rw [List.dropLast_concat] at hx
      have hxl : x ∈ a :: l := by
        rw [hlast]
        exact List.mem_append_left _ hx
      rw [Function.update_of_ne (by rintro rfl; exact hzs hx),
        Function.update_of_ne (by rintro rfl; exact hb hxl)]
    · intro x hx
      rw [← hlast] at hx
      rw [Function.update_of_ne (by rintro rfl; exact hal hx),
        Function.update_of_ne (by rintro rfl; exact hb (List.mem_cons_of_mem _ hx))]
  · exact Function.update_self ..
  · rw [Function.update_of_ne hba]
    exact Function.update_self ..
  · rw [Function.update_of_ne hbz]
    exact Function.update_self ..
  · exact Function.update_self ..

end Updates

/-! ## Lists that end with a null pointer -/

/-- The nodes from the pointer `h` on, the `prev` of the first being `p`. -/
def Dll (next prev : ι → Option ι) : Option ι → Option ι → List ι → Prop
  | _, h, [] => h = none
  | p, h, x :: l => h = some x ∧ prev x = p ∧ Dll next prev (some x) (next x) l

/-- A list depends on the pointers of its own nodes. -/
theorem Dll.congr {p h : Option ι} {l : List ι} (hl : Dll next prev p h l)
    (hn : ∀ x ∈ l, next' x = next x) (hp : ∀ x ∈ l, prev' x = prev x) : Dll next' prev' p h l := by
  induction l generalizing p h with
  | nil => exact hl
  | cons x l ih =>
    obtain ⟨h1, h2, h3⟩ := hl
    have hx : x ∈ x :: l := List.mem_cons_self ..
    refine ⟨h1, by rw [hp x hx]; exact h2, ?_⟩
    rw [hn x hx]
    exact ih h3 (fun y hy => hn y (List.mem_cons_of_mem _ hy))
      (fun y hy => hp y (List.mem_cons_of_mem _ hy))

theorem Dll.head {p h : Option ι} {l : List ι} (hl : Dll next prev p h l) : h = l.head? := by
  cases l with
  | nil => exact hl
  | cons x l => exact hl.1

/-- The pointers of a node of the list stay in the list. -/
theorem Dll.mem {p h : Option ι} {l : List ι} (hl : Dll next prev p h l) {b x : ι} (hb : b ∈ l) :
    (next b = some x → x ∈ l) ∧ (prev b = some x → x ∈ l ∨ p = some x) := by
  induction l generalizing p h with
  | nil => cases hb
  | cons y l ih =>
    obtain ⟨-, h2, h3⟩ := hl
    rcases List.mem_cons.mp hb with rfl | hb'
    · refine ⟨?_, ?_⟩
      · intro hx
        rw [hx] at h3
        cases l with
        | nil => cases h3
        | cons z l =>
          cases h3.1
          simp
      · intro hx
        rw [h2] at hx
        exact Or.inr hx
    · obtain ⟨h4, h5⟩ := ih h3 hb'
      refine ⟨fun hx => List.mem_cons_of_mem _ (h4 hx), ?_⟩
      intro hx
      rcases h5 hx with h | h
      · exact Or.inl (List.mem_cons_of_mem _ h)
      · cases h
        exact Or.inl (List.mem_cons_self ..)

theorem Dll.next_ne_self {p h : Option ι} {l : List ι} (hl : Dll next prev p h l) (hnd : l.Nodup)
    {b : ι} (hb : b ∈ l) : next b ≠ some b := by
  induction l generalizing p h with
  | nil => cases hb
  | cons y l ih =>
    obtain ⟨-, -, h3⟩ := hl
    obtain ⟨hy, hnd'⟩ := List.nodup_cons.mp hnd
    rcases List.mem_cons.mp hb with rfl | hb'
    · intro he
      rw [h3.head] at he
      exact hy (List.mem_of_head? he)
    · exact ih h3 hnd' hb'

/-- The node before the list is the `prev` of its first node and of no
other. -/
theorem Dll.prev_eq_iff {h : Option ι} {l : List ι} {x b : ι} (hl : Dll next prev (some x) h l)
    (hx : x ∉ l) (hb : b ∈ l) : prev b = some x ↔ h = some b := by
  cases l with
  | nil => cases hb
  | cons y l =>
    obtain ⟨rfl, h2, h3⟩ := hl
    rcases List.mem_cons.mp hb with rfl | hb'
    · exact ⟨fun _ => rfl, fun _ => h2⟩
    · constructor
      · intro hp
        rcases (h3.mem hb').2 hp with hm | he
        · exact absurd (List.mem_cons_of_mem _ hm) hx
        · cases he
          exact absurd (List.mem_cons_self ..) hx
      · intro he
        cases he
        exact h2

section Updates

variable [DecidableEq ι]

/-- The pointer assignment `p->field = v`, without effect through a null
pointer. -/
def assign (f : ι → Option ι) (p v : Option ι) : ι → Option ι :=
  match p with
  | some x => Function.update f x v
  | none => f

theorem assign_of_ne {f : ι → Option ι} {p v : Option ι} {x : ι} (h : p ≠ some x) :
    assign f p v x = f x := by
  cases p with
  | none => rfl
  | some y => exact Function.update_of_ne (by rintro rfl; exact h rfl) _ _

theorem assign_self {f : ι → Option ι} {v : Option ι} {x : ι} : assign f (some x) v x = v :=
  Function.update_self ..

/-- Putting a new node in front. -/
theorem dll_insert {h : Option ι} {l : List ι} {b : ι} (hl : Dll next prev none h l)
    (hnd : l.Nodup) (hb : b ∉ l) :
    Dll (Function.update next b h) (assign (Function.update prev b none) h (some b)) none (some b)
      (b :: l) := by
  have hhead := hl.head
  refine ⟨rfl, ?_, ?_⟩
  · rw [assign_of_ne]
    · exact Function.update_self ..
    · rw [hhead]
      exact fun he => hb (List.mem_of_head? he)
  · rw [Function.update_self]
    cases l with
    | nil => exact hl
    | cons x l =>
      obtain ⟨rfl, -, h3⟩ := hl
      have hx : x ∉ l := (List.nodup_cons.mp hnd).1
      refine ⟨rfl, assign_self, ?_⟩
      rw [Function.update_of_ne (by rintro rfl; exact hb (List.mem_cons_self ..))]
      refine h3.congr ?_ ?_
      · intro y hy
        exact Function.update_of_ne (by rintro rfl; exact hb (List.mem_cons_of_mem _ hy)) _ _
      · intro y hy
        rw [assign_of_ne (by rintro he; cases he; exact hx hy)]
        exact Function.update_of_ne (by rintro rfl; exact hb (List.mem_cons_of_mem _ hy)) _ _

/-- Taking a node out: its neighbours are joined. -/
theorem dll_remove {p h : Option ι} {l : List ι} {b : ι} (hl : Dll next prev p h l) (hnd : l.Nodup)
    (hp : ∀ x, p = some x → x ∉ l) (hb : b ∈ l) :
    Dll (assign next (prev b) (next b)) (assign prev (next b) (prev b)) p
      (if h = some b then next b else h) (l.erase b) := by
  induction l generalizing p h with
  | nil => cases hb
  | cons x l ih =>
    obtain ⟨rfl, h2, h3⟩ := hl
    obtain ⟨hx, hnd'⟩ := List.nodup_cons.mp hnd
    by_cases hxb : x = b
    · -- the first node
      subst hxb
      rw [if_pos rfl, List.erase_cons_head, h2]
      have hnext : ∀ y ∈ l, assign next p (next x) y = next y := by
        intro y hy
        refine assign_of_ne ?_
        intro he
        exact hp y he (List.mem_cons_of_mem _ hy)
      cases l with
      | nil => exact h3
      | cons y l =>
        obtain ⟨h4, h5, h6⟩ := h3
        have hy : y ∉ l := (List.nodup_cons.mp hnd').1
        rw [h4] at hnext ⊢
        refine ⟨rfl, assign_self, ?_⟩
        rw [hnext y (List.mem_cons_self ..)]
        refine h6.congr (fun z hz => hnext z (List.mem_cons_of_mem _ hz)) ?_
        intro z hz
        exact assign_of_ne (by rintro he; cases he; exact hy hz)
    · have hb' : b ∈ l := by
        rcases List.mem_cons.mp hb with rfl | hb'
        · exact absurd rfl hxb
        · exact hb'
      have hih := ih h3 hnd' (by rintro y he; cases he; exact hx) hb'
      rw [if_neg (by intro he; cases he; exact hxb rfl), List.erase_cons_tail (by simpa using hxb)]
      refine ⟨rfl, ?_, ?_⟩
      · rw [assign_of_ne (fun he => hx ((h3.mem hb').1 he))]
        exact h2
      · -- the node before `b` is the first one exactly if `b` is the second
        have hiff := h3.prev_eq_iff hx hb'
        by_cases hsecond : next x = some b
        · rw [if_pos hsecond] at hih
          rw [hiff.mpr hsecond, assign_self]
          rw [hiff.mpr hsecond] at hih
          exact hih
        · rw [if_neg hsecond] at hih
          rw [assign_of_ne (fun he => hsecond (hiff.mp he))]
          exact hih

end Updates

end Linux011.Lib
