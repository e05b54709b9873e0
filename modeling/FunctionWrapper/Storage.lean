import FunctionWrapper.Callables
import FunctionWrapper.OwnedCells

/-!
The storage of a wrapper, and the functions that construct, copy, move and destroy in it.

Objects live in cells: the inline buffer of a storage, or a block of the heap. A storage itself is
the three words of `wrapper_storage`. The functions take the storages by value with the name of the
place they are at, and return `none` where the program would be undefined or terminate: a read or a
destruction of an object that is not there, or of another type, or of the wrong member of the
payload, or a throwing constructor in a `noexcept` function.
-/

namespace FunctionWrapper.Storage

open FunctionWrapper.Callables
open OwnedCells

/-- A storage is a member of a wrapper, or the temporary of a swap. -/
inductive Place | of (w : ℕ) | tmp
  deriving DecidableEq, Repr

/-- Where an object can live. -/
inductive Site | sbo (p : Place) | block (n : ℕ)
  deriving DecidableEq, Repr

structure Object (τ Val : Type) where
  type : τ
  val : Val
  deriving DecidableEq, Repr

abbrev Mem (τ Val : Type) := Cells Site (Object τ Val)

/-- `payload_t`: the pointer member, or the buffer, whose contents are in the cell of the place. -/
inductive Payload | heap (p : Option Site) | sbo
  deriving DecidableEq, Repr

/-- `wrapper_storage`. -/
structure WrapperStorage where
  vtTagged : BitVec 64
  obj : Option Site
  payload : Payload
  deriving DecidableEq, Repr

namespace WrapperStorage

def empty : WrapperStorage := ⟨0, none, .heap none⟩

variable (s : WrapperStorage)

def vtablePtr : BitVec 64 := s.vtTagged &&& ~~~ vtableTagsMask
def isEmpty : Bool := s.vtTagged == 0
def isSmall : Bool := s.vtTagged &&& vtableTagIsSmall != 0
def isHeap : Bool := !s.isEmpty && !s.isSmall
def hasTrivialSmallDestroy : Bool := s.vtTagged &&& vtableTagTrivialDestroy != 0
def hasTrivialSmallRelocate : Bool := s.vtTagged &&& vtableTagTrivialRelocate != 0

end WrapperStorage

/-- What a construction may meet: no memory, a throwing constructor, and the block that
`operator new` returns otherwise. -/
structure Luck where
  allocFails : Bool
  throws : Bool
  block : ℕ
  deriving DecidableEq, Repr

variable {τ Val Fn : Type} [DecidableEq τ] (E : Env τ Val Fn)

/-- Reads an object as one of type `T`. -/
def readAt (T : τ) (k : Site) (m : Mem τ Val) : Option Val :=
  match m.get k with
  | some o => if o.type = T then some o.val else none
  | none => none

/-- `std::destroy_at` and `delete`. -/
def destroyAt (T : τ) (k : Site) (m : Mem τ Val) : Option (Mem τ Val) :=
  match m.get k with
  | some o => if o.type = T then some (m.drop k) else none
  | none => none

/-- The buffer is written over: an object in it ends if it is trivially destructible. -/
def overwrite (p : Place) (m : Mem τ Val) : Mem τ Val :=
  match m.get (.sbo p) with
  | some o => if E.layout.triviallyDestructible o.type then m.drop (.sbo p) else m.forget (.sbo p)
  | none => m

def clearStorage (p : Place) (m : Mem τ Val) : Mem τ Val × WrapperStorage :=
  (overwrite E p m, WrapperStorage.empty)

def destroyTrivialSmallStorage (p : Place) (m : Mem τ Val) : Mem τ Val × WrapperStorage :=
  clearStorage E p m

/-- The bytes of the source are an object again only if its type is trivially copyable. -/
def copyTrivialSmallStorage (dst src : Place) (m : Mem τ Val) (s : WrapperStorage) :
    Option (Mem τ Val × WrapperStorage) :=
  let d : WrapperStorage := ⟨s.vtTagged, some (.sbo dst), s.payload⟩
  match s.payload with
  | .heap _ => some (overwrite E dst m, d)
  | .sbo =>
    match m.get (.sbo src) with
    | none => some (overwrite E dst m, d)
    | some o =>
      if E.layout.triviallyCopyable o.type then some ((overwrite E dst m).put (.sbo dst) o, d)
      else none

def moveTrivialSmallStorage (dst src : Place) (m : Mem τ Val) (s : WrapperStorage) :
    Option (Mem τ Val × WrapperStorage × WrapperStorage) := do
  let (m, d) ← copyTrivialSmallStorage E dst src m s
  let (m, s) := clearStorage E src m
  return (m, d, s)

def emplaceSmallStorage (p : Place) (o : Object τ Val) (luck : Luck) (m : Mem τ Val)
    (s : WrapperStorage) : Mem τ Val × WrapperStorage × Bool :=
  if luck.throws then (overwrite E p m, { s with payload := .sbo }, true)
  else ((overwrite E p m).put (.sbo p) o,
    ⟨E.vtables.address o.type ||| E.tags o.type, some (.sbo p), .sbo⟩, false)

def emplaceHeapStorage (p : Place) (o : Object τ Val) (luck : Luck) (m : Mem τ Val)
    (s : WrapperStorage) : Mem τ Val × WrapperStorage × Bool :=
  if luck.allocFails || luck.throws then (m, s, true)
  else ((overwrite E p m).put (.block luck.block) o,
    ⟨E.vtables.address o.type, some (.block luck.block), .heap (some (.block luck.block))⟩, false)

/-- What a construction leaves of an rvalue. Without memory no constructor has run. -/
def leftover (luck : Luck) (threw : Bool) (o : Object τ Val) : Val :=
  if !threw then E.movedFrom o.type o.val
  else if luck.allocFails && !E.fitsInSbo o.type then o.val
  else E.brokenFrom o.type o.val

/-! ### The lifecycle functions of a vtable -/

/-- The pointer in the payload, when that is its active member. -/
def Payload.pointer : Payload → Option (Option Site)
  | .heap k => some k
  | .sbo => none

/-- `vtable_instance<T>::destroy`. -/
def destroy (T : τ) (p : Place) (m : Mem τ Val) (s : WrapperStorage) : Option (Mem τ Val × WrapperStorage) := do
  let m ← if s.isSmall then destroyAt T (.sbo p) m
    else if s.isHeap then
      match ← s.payload.pointer with
      | some k => destroyAt T k m
      | none => some m
    else some m
  return clearStorage E p m

/-- `vtable_instance<T>::copy`; the flag says that it threw. -/
def copy (T : τ) (dst src : Place) (luck : Luck) (m : Mem τ Val) (d s : WrapperStorage) :
    Option (Mem τ Val × WrapperStorage × Bool) := do
  if s.isSmall then
    let v ← readAt T (.sbo src) m
    if luck.throws then return (overwrite E dst m, { d with payload := .sbo }, true)
    else return ((overwrite E dst m).put (.sbo dst) ⟨T, v⟩, ⟨s.vtTagged, some (.sbo dst), .sbo⟩, false)
  else if s.isHeap then
    let k ← (← s.payload.pointer)
    let v ← readAt T k m
    if luck.allocFails || luck.throws then return (m, d, true)
    else return ((overwrite E dst m).put (.block luck.block) ⟨T, v⟩,
      ⟨s.vtTagged, some (.block luck.block), .heap (some (.block luck.block))⟩, false)
  else return (m, { d with vtTagged := s.vtTagged }, false)

/-- `vtable_instance<T>::move`. -/
def move (T : τ) (dst src : Place) (m : Mem τ Val) (d s : WrapperStorage) :
    Option (Mem τ Val × WrapperStorage × WrapperStorage) := do
  if s.isSmall then
    let v ← readAt T (.sbo src) m
    guard (E.layout.nothrowMoveConstructible T)
    let m ← destroyAt T (.sbo src) ((overwrite E dst m).put (.sbo dst) ⟨T, v⟩)
    let (m, s') := clearStorage E src m
    return (m, ⟨s.vtTagged, some (.sbo dst), .sbo⟩, s')
  else if s.isHeap then
    let k ← s.payload.pointer
    let m := overwrite E dst m
    let (m, s') := clearStorage E src m
    return (m, ⟨s.vtTagged, k, .heap k⟩, s')
  else
    let (m, s') := clearStorage E src m
    return (m, { d with vtTagged := s.vtTagged }, s')

end FunctionWrapper.Storage
