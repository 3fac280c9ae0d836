import ShmIpc.AddressSpace
import ShmIpc.ChannelExact
import ShmIpc.Simulation

/-!
# The segments of several processes

The kernel maps a new object for `Segment::create`, `fork` copies the table and
the objects of type `Segment`, and `~Segment` forgets the address. The abstract
side has arrays of bytes and handles to them, and no addresses.
-/
namespace ShmIpcSegments

open AddressSpace LabelledRun
open ShmIpcExact (Segment pageSize segmentCreate Accepted)

variable {π σ : Type}

/-- `Segment::destroy` -/
def segmentDestroy (munmap : Bool) (seg : Segment) : Except String Unit × Segment :=
  if seg.mAddr.isNone then (.ok (), seg)
  else if !munmap then (.error "Segment::destroy(): munmap failed: ", seg)
  else (.ok (), ⟨0, none⟩)

/-! ## Processes -/

structure Process (σ : Type) where
  table : Table
  segments : σ → Option Segment

/-- The processes, and the objects that `mmap` has made. -/
structure System (π σ : Type) where
  processes : π → Option (Process σ)
  objects : Nat
  bytes : Bytes

inductive Act (π σ : Type) where
  | construct (p : π) (s : σ)
  | create (p : π) (s : σ) (size : UInt32) (mmap : Option Nat)
  | destroy (p : π) (s : σ) (munmap : Bool)
  | destruct (p : π) (s : σ)
  | load (p : π) (s : σ) (i : Nat)
  | store (p : π) (s : σ) (i : Nat) (v : UInt8)
  | fork (p q : π)
  | exit (p : π)

/-- What the code of a process gets to know. -/
inductive Event (π σ : Type) where
  | constructed (p : π) (s : σ)
  | created (p : π) (s : σ) (size : UInt32) (result : Except String Unit)
  | destroyed (p : π) (s : σ) (result : Except String Unit)
  | destructed (p : π) (s : σ)
  | loaded (p : π) (s : σ) (i : Nat) (result : Option UInt8)
  | stored (p : π) (s : σ) (i : Nat) (v : UInt8) (done : Bool)
  | forked (p q : π)
  | exited (p : π)

/-- The pages that the kernel takes for a length. -/
def pagesOf (size : Nat) : Nat := (size + (pageSize.toNat - 1)) / pageSize.toNat

/-- The address of a byte of the segment, and only of a byte of the segment. -/
def address (seg : Segment) (i : Nat) : Option Nat :=
  if i < seg.mSize then seg.mAddr.map (· + i) else none

def System.table (sys : System π σ) (p : π) : Table :=
  (sys.processes p).elim (fun _ => none) Process.table

/-- `mmap` without a hint returns the start of pages that are not in use. -/
def Granted (sys : System π σ) : Act π σ → Prop
  | .create p _ size (some addr) =>
    addr ≠ 0 ∧ addr % pageSize.toNat = 0 ∧ Free (sys.table p) (addr / pageSize.toNat)
      (pagesOf size.toNat)
  | _ => True

instance (sys : System π σ) : (a : Act π σ) → Decidable (Granted sys a)
  | .create _ _ _ (some _) => inferInstanceAs (Decidable (_ ∧ _ ∧ Free _ _ _))
  | .create _ _ _ none | .construct .. | .destroy .. | .destruct .. | .load .. | .store .. | .fork
      .. | .exit _ => .isTrue trivial

section
variable [DecidableEq σ] [DecidableEq π]

def Process.put (proc : Process σ) (s : σ) (seg : Option Segment) : Process σ :=
  { proc with segments := Function.update proc.segments s seg }

def System.put (sys : System π σ) (p : π) (proc : Option (Process σ)) : System π σ :=
  { sys with processes := Function.update sys.processes p proc }

def perform (sys : System π σ) : Act π σ → Option (Event π σ × System π σ)
  | .construct p s =>
    (sys.processes p).bind fun proc =>
      if (proc.segments s).isSome then none
      else some (.constructed p s, sys.put p (some (proc.put s (some ⟨0, none⟩))))
  | .create p s size mmap =>
    (sys.processes p).bind fun proc => (proc.segments s).bind fun seg =>
      match segmentCreate mmap size seg with
      | (.error e, seg') => some (.created p s size (.error e),
          sys.put p (some (proc.put s (some seg'))))
      | (.ok (), seg') =>
        let table := map sys.objects (seg'.mAddr.getD 0 / pageSize.toNat)
          (pagesOf size.toNat) proc.table
        some (.created p s size (.ok ()),
          { sys.put p (some { proc.put s (some seg') with table }) with
            objects := sys.objects + 1
            bytes := Function.update sys.bytes sys.objects fun _ => 0 })
  | .destroy p s munmap =>
    (sys.processes p).bind fun proc => (proc.segments s).bind fun seg =>
      let (result, seg') := segmentDestroy munmap seg
      let table := match seg.mAddr with
        | some addr => if munmap then unmap (addr / pageSize.toNat) (pagesOf seg.mSize) proc.table
            else proc.table
        | none => proc.table
      some (.destroyed p s result, sys.put p (some { proc.put s (some seg') with table }))
  | .destruct p s =>
    (sys.processes p).bind fun proc =>
      if (proc.segments s).isSome then some (.destructed p s, sys.put p (some (proc.put s none)))
        else none
  | .load p s i =>
    (sys.processes p).bind fun proc => (proc.segments s).bind fun seg =>
      (address seg i).bind fun addr =>
      some (.loaded p s i (load pageSize.toNat addr proc.table sys.bytes), sys)
  | .store p s i v =>
    (sys.processes p).bind fun proc => (proc.segments s).bind fun seg =>
      (address seg i).bind fun addr =>
      let bytes := store pageSize.toNat addr v proc.table sys.bytes
      some (.stored p s i v bytes.isSome, { sys with bytes := bytes.getD sys.bytes })
  | .fork p q =>
    (sys.processes p).bind fun proc =>
      if (sys.processes q).isSome then none else some (.forked p q, sys.put q (some proc))
  | .exit p => if (sys.processes p).isSome then some (.exited p, sys.put p none) else none

def step (sys : System π σ) (a : Act π σ) : Option (System π σ) := (perform sys a).map Prod.snd

def event (sys : System π σ) (a : Act π σ) (_ : System π σ) : Option (Event π σ) :=
  (perform sys a).map Prod.fst

/-- One process without a mapping. -/
def start (p : π) : System π σ where
  processes := Function.update (fun _ => none) p (some ⟨fun _ => none, fun _ => none⟩)
  objects := 0
  bytes := fun _ _ => 0

end

/-! ## Arrays and handles -/

inductive Handle where
  | empty
  | holds (array : Nat)

/-- What a process has of the arrays; those that are resident cost memory. -/
structure Owner (σ : Type) where
  handles : σ → Option Handle
  resident : Nat → Bool

structure Shared (π σ : Type) where
  owners : π → Option (Owner σ)
  count : Nat
  sizes : Nat → Nat
  arrays : Nat → Nat → UInt8

def Owner.keep (o : Owner σ) (array : Nat) (resident : Bool) : Owner σ :=
  { o with resident := Function.update o.resident array resident }

/-- A new array, all of it zero. -/
def Shared.extend (q : Shared π σ) (size : Nat) : Shared π σ :=
  { q with
    count := q.count + 1
    sizes := Function.update q.sizes q.count size
    arrays := Function.update q.arrays q.count fun _ => 0 }

/-- The handle that process `p` has in its segment `s`. -/
structure Has (q : Shared π σ) (p : π) (s : σ) (o : Owner σ) (handle : Handle) : Prop where
  owner : q.owners p = some o
  has : o.handles s = some handle

section
variable [DecidableEq σ] [DecidableEq π]

def Owner.put (o : Owner σ) (s : σ) (handle : Option Handle) : Owner σ :=
  { o with handles := Function.update o.handles s handle }

def Shared.put (q : Shared π σ) (p : π) (o : Option (Owner σ)) : Shared π σ :=
  { q with owners := Function.update q.owners p o }

inductive Follows : Shared π σ → Event π σ → Shared π σ → Prop where
  | constructed {q : Shared π σ} {p : π} {s : σ} {o : Owner σ} : q.owners p = some o →
      o.handles s = none → Follows q (.constructed p s) (q.put p (some (o.put s (some .empty))))
  | created {q : Shared π σ} {p : π} {s : σ} {o : Owner σ} {size : UInt32} : Has q p s o .empty →
      Accepted size → Follows q (.created p s size (.ok ()))
        ((q.extend size.toNat).put p (some ((o.put s (some (.holds q.count))).keep q.count true)))
  | createdBefore {q : Shared π σ} {p : π} {s : σ} {o : Owner σ} {size : UInt32} {k : Nat} :
      Has q p s o (.holds k) → Follows q
      (.created p s size (.error "Segment::create() segment already created")) q
  | refused {q : Shared π σ} {p : π} {s : σ} {o : Owner σ} {size : UInt32} : Has q p s o .empty →
      ¬ Accepted size →
      Follows q
      (.created p s size
        (.error "Segment::create() size must be non-zero and a multiple of page size")) q
  | noMemory {q : Shared π σ} {p : π} {s : σ} {o : Owner σ} {size : UInt32} : Has q p s o .empty →
      Accepted size → Follows q (.created p s size (.error "Segment::create(): mmap failed : ")) q
  | destroyed {q : Shared π σ} {p : π} {s : σ} {o : Owner σ} {k : Nat} : Has q p s o (.holds k) →
      Follows q (.destroyed p s (.ok ())) (q.put p (some ((o.put s (some .empty)).keep k false)))
  | nothingToDestroy {q : Shared π σ} {p : π} {s : σ} {o : Owner σ} : Has q p s o .empty →
      Follows q (.destroyed p s (.ok ())) q
  | stillMapped {q : Shared π σ} {p : π} {s : σ} {o : Owner σ} {k : Nat} : Has q p s o (.holds k) →
      Follows q (.destroyed p s (.error "Segment::destroy(): munmap failed: ")) q
  -- `~Segment` does not unmap: the array stays resident without a handle
  | destructed {q : Shared π σ} {p : π} {s : σ} {o : Owner σ} {handle : Handle} :
      Has q p s o handle → Follows q (.destructed p s) (q.put p (some (o.put s none)))
  | loaded {q : Shared π σ} {p : π} {s : σ} {o : Owner σ} {k i : Nat} : Has q p s o
      (.holds k) → i < q.sizes k → Follows q (.loaded p s i (some (q.arrays k i))) q
  | stored {q : Shared π σ} {p : π} {s : σ} {o : Owner σ} {k i : Nat} {v : UInt8} :
      Has q p s o (.holds k) → i < q.sizes k → Follows q (.stored p s i v true)
      { q with arrays := write k i v q.arrays }
  | forked {q : Shared π σ} {p p' : π} {o : Owner σ} : q.owners p = some o → q.owners p' = none →
      Follows q (.forked p p') (q.put p' (some o))
  | exited {q : Shared π σ} {p : π} {o : Owner σ} : q.owners p = some o →
      Follows q (.exited p) (q.put p none)

def Shared.start (p : π) : Shared π σ where
  owners := Function.update (fun _ => none) p (some ⟨fun _ => none, fun _ => false⟩)
  count := 0
  sizes := fun _ => 0
  arrays := fun _ _ => 0

end

end ShmIpcSegments
