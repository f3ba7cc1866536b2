import MyLibs.Platform

/-!
# Allocation with a last attempt

`my_malloc.c` asks the C library first. When it gets the null pointer,
`fixup_null_alloc` makes one more attempt for the length 0 and otherwise calls
the handler or aborts. The source gives `fixup_null_alloc` no return type; it is
read as returning its pointer `data`.
-/

namespace MyLibs
namespace Malloc

abbrev Block := List UInt8

/-- The allocation functions of the C library over the state of its heap; `none`
is the null pointer. -/
structure Allocator (heap : Type _) where
  malloc : Nat -> heap -> Option Block × heap
  calloc : Nat -> Nat -> heap -> Option Block × heap
  realloc : Block -> Nat -> heap -> Option Block × heap

/-- `handler` is the static variable of the file, `none` until it is set. A
handler that does not return has no heap to go on with. -/
structure Setup (heap : Type _) where
  haveSbrk : Bool
  handler : Option (heap -> Option heap)

inductive Outcome (heap : Type _) where
  | returns (data : Option Block) (memory : heap)
  | aborts
  | handlerStays

variable {heap : Type _}

/-- The call of the handler, or of `abort`, at the end of `fixup_null_alloc`. -/
def callHandler (setup : Setup heap) (memory : heap) : Outcome heap :=
  match setup.handler with
  | none => Outcome.aborts
  | some handler =>
      match handler memory with
      | some memory => Outcome.returns none memory
      | none => Outcome.handlerStays

/-- `fixup_null_alloc`. The two readings of `sbrk` set `allocated`, which nothing
reads. -/
def fixupNullAlloc (lib : Allocator heap) (setup : Setup heap) (length : Nat)
    (memory : heap) : Outcome heap :=
  if setup.haveSbrk then
    match if length = 0 then lib.malloc 1 memory else (none, memory) with
    | (some data, memory) => Outcome.returns (some data) memory
    | (none, memory) => callHandler setup memory
  else Outcome.returns none memory

def myMalloc (lib : Allocator heap) (setup : Setup heap) (length : Nat)
    (memory : heap) : Outcome heap :=
  match lib.malloc length memory with
  | (some data, memory) => Outcome.returns (some data) memory
  | (none, memory) => fixupNullAlloc lib setup length memory

/-- `my_calloc`. The product of the two `size_t` arguments is a `size_t`. -/
def myCalloc (lib : Allocator heap) (setup : Setup heap) (length value : Nat)
    (memory : heap) : Outcome heap :=
  match lib.calloc length value memory with
  | (some data, memory) => Outcome.returns (some data) memory
  | (none, memory) => fixupNullAlloc lib setup (sizet (length * value)) memory

/-- `my_realloc`. Without a block to extend nothing follows `malloc`. -/
def myRealloc (lib : Allocator heap) (setup : Setup heap) (data : Option Block)
    (length : Nat) (memory : heap) : Outcome heap :=
  match data with
  | none =>
      match lib.malloc length memory with
      | (data, memory) => Outcome.returns data memory
  | some block =>
      match lib.realloc block length memory with
      | (some data, memory) => Outcome.returns (some data) memory
      | (none, memory) => fixupNullAlloc lib setup length memory

end Malloc
end MyLibs
