import MyLibs.Foundation.Slices
import MyLibs.Platform

/-!
# The growable array of `my_array.c`

The buffer is a block of bytes. A function returns `none` where the source would
touch a byte outside of it, follow a null pointer or divide by zero. Pointers
into the buffer are offsets. Sums and products are those of `unsigned int`.

The misspelt `array` and `idx` of the source are its arguments `__array` and
`__idx`.
-/

namespace MyLibs
namespace GrowableArray

open Foundation

def MALLOC_OVERHEAD : Nat := 8

def ARRAT_BLOCK_SIZE : Nat := 8096

def ARRAY_INIT_INCREMENT : Nat := 16

def ARRAY_INIT_NUMBER : Nat := 8

abbrev Bytes := Nat -> UInt8

structure MyArray where
  /-- `none` is the null pointer. -/
  buffer : Option (List UInt8)
  /-- Whether the buffer begins behind the structure, at `array + 1`. -/
  inPlace : Bool
  elements : Nat
  number : Nat
  increment : Nat
  size : Nat

/-!
## Memory
-/

def readBytes (memory : Bytes) (n : Nat) : List UInt8 :=
  (List.range n).map memory

/-- `my_malloc`: the bytes found in the new block, if there is room for one. -/
def myMalloc (n : Nat) (room : Option Bytes) : Option (List UInt8) :=
  room.map fun garbage => readBytes garbage n

/-- `my_realloc`: a longer block ends with whatever was there. -/
def myRealloc (block : Option (List UInt8)) (n : Nat) (room : Option Bytes) :
    Option (List UInt8) :=
  room.map fun garbage =>
    (block.getD []).take n ++ readBytes garbage (n - (block.getD []).length)

/-- `memcpy` or `memset` to the buffer. -/
def MyArray.write (array : MyArray) (offset : Nat) (bytes : List UInt8) : Option MyArray := do
  let buffer <- array.buffer
  let buffer <- splice buffer offset bytes
  some { array with buffer := some buffer }

/-!
## Operations
-/

/-- `my_array_init`, where the structure itself is allocated: the array, or
`NULL`. A buffer that is passed on holds `number` elements. -/
def myArrayInit (buffer : Option (List UInt8)) (inPlace : Bool) (number increment size : Nat)
    (room : Option Bytes) : Option MyArray :=
  if increment = 0 ∧ size = 0 then
    none
  else
    let increment :=
      if increment = 0 then
        let increment := max ((ARRAT_BLOCK_SIZE - MALLOC_OVERHEAD) / size) ARRAY_INIT_INCREMENT
        if ARRAY_INIT_NUMBER < number ∧ uint (number * 2) < increment then uint (number * 2)
        else increment
      else increment
    let buffer := if number = 0 then none else buffer
    let number := if number = 0 then increment else number
    match buffer with
    | some buffer => some
        { buffer := some buffer, inPlace := inPlace, elements := 0, number := number,
          increment := increment, size := size }
    | none => (myMalloc (uint (size * number)) room).map fun buffer =>
        { buffer := some buffer, inPlace := false, elements := 0, number := number,
          increment := increment, size := size }

/-- The two ways to a larger buffer in `my_array_alloc` and `my_array_allocate`:
the new buffer, if there is room for it. Asked for no bytes, `my_realloc` has freed the
old buffer when it returns `NULL`, and the array that still points to it is of no use. -/
def newBuffer (array : MyArray) (bytes : Nat) (room : Option Bytes) :
    Option (Option (List UInt8)) :=
  if array.inPlace then
    match myMalloc bytes room with
    | none => some none
    | some fresh => do
        let buffer <- array.buffer
        let old <- slice buffer 0 (uint (array.elements * array.size))
        let fresh <- splice fresh 0 old
        some (some fresh)
  else if bytes = 0 ∧ array.buffer.isSome ∧ room.isNone then
    none
  else
    some (myRealloc array.buffer bytes room)

def takeSlot (array : MyArray) : Option Nat × MyArray :=
  (some (uint (array.elements * array.size)),
    { array with elements := uint (array.elements + 1) })

/-- `my_array_alloc`: the place of the new element, or `NULL`, and the array
after. -/
def myArrayAlloc (array : MyArray) (room : Option Bytes) : Option (Option Nat × MyArray) :=
  if array.elements = array.number then do
    let number := uint (array.number + array.increment)
    let buffer <- newBuffer array (uint (number * array.size)) room
    match buffer with
    | none => some (none, array)
    | some buffer => some (takeSlot
        { array with buffer := some buffer, inPlace := false, number := number })
  else
    some (takeSlot array)

/-- The place that `my_array_insert` copies the element to, or `NULL`. -/
def insertPlace (array : MyArray) (room : Option Bytes) : Option (Option Nat × MyArray) :=
  if array.elements = array.number then myArrayAlloc array room else some (takeSlot array)

def myArrayInsert (array : MyArray) (element : Bytes) (room : Option Bytes) :
    Option (Nat × MyArray) := do
  let (buffer, array) <- insertPlace array room
  match buffer with
  | none => some (1, array)
  | some buffer => do
      let array <- array.write buffer (readBytes element array.size)
      some (0, array)

/-- `my_array_pop`: the place of the element that was the last, or `NULL`. -/
def myArrayPop (array : MyArray) : Option Nat × MyArray :=
  if array.elements ≠ 0 then
    (some (uint ((array.elements - 1) * array.size)),
      { array with elements := array.elements - 1 })
  else
    (none, array)

def myArrayAllocate (array : MyArray) (number : Nat) (room : Option Bytes) :
    Option (Nat × MyArray) :=
  if array.number <= number then
    if array.increment = 0 then
      none
    else do
      let size := uint (uint (number + array.increment) / array.increment * array.increment)
      let buffer <- newBuffer array (uint (size * array.size)) room
      match buffer with
      | none => some (1, array)
      | some buffer => some (0,
          { array with buffer := some buffer, inPlace := false, number := size })
  else
    some (0, array)

/-- `__idx >= __array->number && my_array_allocate(__array, __idx)` -/
def allocateFor (array : MyArray) (idx : Nat) (room : Option Bytes) : Option (Nat × MyArray) :=
  if array.number <= idx then myArrayAllocate array idx room else some (0, array)

def myArraySet (array : MyArray) (element : Bytes) (idx : Nat) (room : Option Bytes) :
    Option (Nat × MyArray) :=
  if array.elements <= idx then do
    let (failed, array) <- allocateFor array idx room
    if failed ≠ 0 then
      some (1, array)
    else do
      let gap := uint ((idx - array.elements) * array.size)
      let array <- array.write (uint (array.elements * array.size)) (List.replicate gap 0)
      let array := { array with elements := uint (idx + 1) }
      let array <- array.write (uint (idx * array.size)) (readBytes element array.size)
      some (0, array)
  else do
    let array <- array.write (uint (idx * array.size)) (readBytes element array.size)
    some (0, array)

/-- `my_array_get`: what is returned, and the element written for the caller. -/
def myArrayGet (array : MyArray) (idx : Nat) : Option (Nat × List UInt8) :=
  if array.elements <= idx then
    some (1, List.replicate array.size 0)
  else do
    let buffer <- array.buffer
    let element <- slice buffer (uint (idx * array.size)) array.size
    some (0, element)

def myArrayDelete (array : MyArray) (idx : Nat) : Option MyArray := do
  let ptr := uint (array.size * idx)
  let elements := uint (array.elements + (2 ^ 32 - 1))
  let buffer <- array.buffer
  let behind <- slice buffer (ptr + array.size)
    (uint (uint (elements + (2 ^ 32 - idx)) * array.size))
  let array <- array.write ptr behind
  some { array with elements := elements }

/-- `my_array_free`: without room the buffer is lost. -/
def myArrayFree (array : MyArray) (room : Option Bytes) : MyArray :=
  let elements := max array.elements 1
  if array.inPlace then
    array
  else if array.buffer.isSome ∧ array.number ≠ elements then
    { array with
      buffer := myRealloc array.buffer (uint (elements * array.size)) room
      number := elements }
  else
    array

end GrowableArray
end MyLibs
