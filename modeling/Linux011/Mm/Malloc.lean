import Linux011.Lib.ChainOps
import Mathlib.Data.Finset.Card
import Mathlib.Data.Finset.Union
import Mathlib.Logic.Relation

/-!
# Kernel malloc — the model

`lib/malloc.c`: pages are cut into objects of one size each, the free objects of
a page are linked to each other through their first words, and descriptors of
the pages are on a chain for each size or on the list of unused ones.

* `malloc`, `freeS` — the two routines; a panic is an error;
* `Heap` — the memory, and the objects that are live;
* `Heap.step` — `malloc`, `free_s`, and whatever the owners of live objects
  write into them.

Pointers are addresses, null is `none`. Chains are named by the size that
`bucket_dir` gives for them. Descriptors and objects are kept apart, since no
page has both. `get_free_page` is an argument, the page that it returns; each
routine is one step, as the source disables interrupts in it.
-/

namespace Linux011.Mm.Malloc

open Lib

/-- The sizes of `bucket_dir`. -/
def bucketDir : List Nat := [16, 32, 64, 128, 256, 512, 1024, 2048, 4096]

def pageSize : Nat := 4096

def descSize : Nat := 16

/-- The static variables, the descriptors by address, the first words of the
objects by address, and the pages held; `descPages` are those that
`init_bucket_desc` has taken. -/
structure Mem where
  chain          : Nat → Option Nat
  freeBucketDesc : Option Nat
  page           : Nat → Nat
  next           : Nat → Option Nat
  freeptr        : Nat → Option Nat
  refcnt         : Nat → Nat
  bucketSize     : Nat → Nat
  word           : Nat → Option Nat
  held           : Finset Nat
  descPages      : Finset Nat

inductive Panic
  | badArg
  | badAddress
  | corrupted
  | endless
  deriving DecidableEq, Repr

/-- The descriptors there are: no chain is longer, unless it is circular. -/
def Mem.descs (s : Mem) : Nat := s.descPages.card * (pageSize / descSize)

/-! ## malloc -/

def initBucketDesc (s : Mem) (first : Nat) : Mem :=
  { s with
    next := thread s.next first descSize s.freeBucketDesc (pageSize / descSize - 1)
    freeBucketDesc := some first
    held := insert first s.held
    descPages := insert first s.descPages }

/-- The descriptor `bdesc` is taken for a new page of objects of `size`. -/
def newBucket (s : Mem) (bdesc size cp : Nat) : Mem :=
  { s with
    freeBucketDesc := s.next bdesc
    refcnt := Function.update s.refcnt bdesc 0
    bucketSize := Function.update s.bucketSize bdesc size
    page := Function.update s.page bdesc cp
    freeptr := Function.update s.freeptr bdesc (some cp)
    word := thread s.word cp size none (pageSize / size - 1)
    next := Function.update s.next bdesc (s.chain size)
    chain := Function.update s.chain size (some bdesc)
    held := insert cp s.held }

/-- The bucket that the search did not find. -/
def makeBucket (s : Mem) (size descPage bucketPage : Nat) : Mem × Nat :=
  match s.freeBucketDesc with
  | some bdesc => (newBucket s bdesc size bucketPage, bdesc)
  | none => (newBucket (initBucketDesc s descPage) descPage size bucketPage, descPage)

/-- The first free object of a bucket. -/
def takeObject (s : Mem) (bdesc retval : Nat) : Mem :=
  { s with
    freeptr := Function.update s.freeptr bdesc (s.word retval)
    refcnt := Function.update s.refcnt bdesc (s.refcnt bdesc + 1) }

def takeFirst (s : Mem) (bdesc : Nat) : Except Panic (Mem × Nat) :=
  match s.freeptr bdesc with
  | some retval => .ok (takeObject s bdesc retval, retval)
  | none => .error .corrupted

/-- `malloc`; the pages are those that `get_free_page` returns. -/
def malloc (s : Mem) (len descPage bucketPage : Nat) : Except Panic (Mem × Nat) :=
  match bucketDir.find? fun size => len ≤ size with
  | none => .error .badArg
  | some size =>
    match walk (fun bdesc => (s.freeptr bdesc).isSome) s.next s.descs none (s.chain size) with
    | none => .error .endless
    | some (_, some bdesc) => takeFirst s bdesc
    | some (_, none) =>
      let (s, bdesc) := makeBucket s size descPage bucketPage
      takeFirst s bdesc

/-! ## free_s -/

/-- `obj & 0xfffff000`. -/
def pageOf (obj : Nat) : Nat := obj / pageSize * pageSize

/-- The search for the page of the object: the chain, the descriptor before the
one that is found, and that one. -/
def search (s : Mem) (page : Nat) (size : Int) : List Nat → Except Panic (Nat × Option Nat × Nat)
  | [] => .error .badAddress
  | bdir :: rest =>
    if bdir < size then search s page size rest
    else
      match walk (fun bdesc => s.page bdesc = page) s.next s.descs none (s.chain bdir) with
      | none => .error .endless
      | some (prev, some bdesc) => .ok (bdir, prev, bdesc)
      | some (_, none) => search s page size rest

/-- The object goes in front of the free ones. -/
def putObject (s : Mem) (bdesc obj : Nat) : Mem :=
  { s with
    word := Function.update s.word obj (s.freeptr bdesc)
    freeptr := Function.update s.freeptr bdesc (some obj)
    refcnt := Function.update s.refcnt bdesc (s.refcnt bdesc - 1) }

/-- Whether `prev` still points to the descriptor. -/
def stale (s : Mem) (bdir : Nat) (prev : Option Nat) (bdesc : Nat) : Bool :=
  match prev with
  | some p => s.next p != some bdesc
  | none => s.chain bdir != some bdesc

/-- The page goes back, and the descriptor to the unused ones. -/
def freeBucket (s : Mem) (bdesc : Nat) : Mem :=
  { s with
    held := s.held.erase (s.page bdesc)
    next := Function.update s.next bdesc s.freeBucketDesc
    freeBucketDesc := some bdesc }

def unlink (s : Mem) (bdir : Nat) (prev : Option Nat) (bdesc : Nat) : Except Panic Mem :=
  match prev with
  | some p => .ok (freeBucket { s with next := Function.update s.next p (s.next bdesc) } bdesc)
  | none =>
    if s.chain bdir ≠ some bdesc then .error .corrupted
    else .ok (freeBucket { s with chain := Function.update s.chain bdir (s.next bdesc) } bdesc)

def freeS (s : Mem) (obj : Nat) (size : Int) : Except Panic Mem :=
  match search s (pageOf obj) size bucketDir with
  | .error p => .error p
  | .ok (bdir, prev, bdesc) =>
    let s := putObject s bdesc obj
    if s.refcnt bdesc = 0 then
      if stale s bdir prev bdesc then
        match walk (fun p => s.next p = some bdesc) s.next s.descs none (s.chain bdir) with
        | none => .error .endless
        | some (_, prev) => unlink s bdir prev bdesc
      else unlink s bdir prev bdesc
    else .ok s

/-! ## Runs -/

/-- The memory, the objects that are live, and what was asked for. -/
structure Heap extends Mem where
  live  : Finset Nat
  asked : Nat → Nat

/-- The size of the bucket of an object of `len` bytes. -/
def bucketOf (len : Nat) : Option Nat := bucketDir.find? fun size => len ≤ size

inductive Op
  | malloc (len descPage bucketPage : Nat)
  | freeS (obj : Nat) (size : Int)
  | use (word : Nat → Option Nat)

def Heap.step (h : Heap) : Op → Except Panic Heap
  | .malloc len descPage bucketPage =>
    match malloc h.toMem len descPage bucketPage with
    | .error p => .error p
    | .ok (s, retval) => .ok ⟨s, insert retval h.live, Function.update h.asked retval len⟩
  | .freeS obj size =>
    match freeS h.toMem obj size with
    | .error p => .error p
    | .ok s => .ok ⟨s, h.live.erase obj, h.asked⟩
  | .use word => .ok { h with word := word }

/-- A page that `get_free_page` may return: it is not held. -/
def Mem.Free (s : Mem) (p : Nat) : Prop := pageSize ∣ p ∧ p ∉ s.held

/-- How the routines are called. An object is freed when it is live, with a size
that its bucket has; its owner writes between its beginning and its end. -/
def Heap.Allowed (h : Heap) : Op → Prop
  | .malloc len descPage bucketPage =>
    len ≤ pageSize ∧ h.Free descPage ∧ h.Free bucketPage ∧ descPage ≠ bucketPage
  | .freeS obj size => obj ∈ h.live ∧ ∃ bucket, bucketOf (h.asked obj) = some bucket ∧ size ≤ bucket
  | .use word => ∀ a, (∀ obj ∈ h.live, ∀ bucket, bucketOf (h.asked obj) = some bucket → ¬(obj ≤ a ∧ a < obj + bucket)) →
    word a = h.word a

/-- Nothing has been allocated. -/
def Heap.start (s : Mem) : Heap :=
  ⟨{ s with chain := fun _ => none, freeBucketDesc := none, held := ∅, descPages := ∅ }, ∅, fun _ => 0⟩

/-- A step that is allowed and does not panic. -/
def Next (h h' : Heap) : Prop := ∃ op, h.Allowed op ∧ h.step op = .ok h'

end Linux011.Mm.Malloc
