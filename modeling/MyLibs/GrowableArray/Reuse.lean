import MyLibs.GrowableArray.Runs

/-!
# Emptying and reusing the array

`my_array_uninit` gives a block of the heap back and keeps a buffer that begins behind the
structure. Either way the structure is an array again, of no elements: the next call that
needs room gets it, from a null pointer if there is no buffer.
-/

namespace MyLibs
namespace GrowableArray

open Foundation

def myArrayUninit (array : MyArray) : MyArray :=
  if array.inPlace then
    { array with elements := 0 }
  else if array.buffer.isSome then
    { array with buffer := none, elements := 0, number := 0 }
  else
    array

structure Emptied (array : MyArray) : Prop where
  size_pos : 0 < array.size
  increment_pos : 0 < array.increment
  buffer : array.buffer = none
  inPlace : array.inPlace = false
  elements : array.elements = 0
  number : array.number = 0

/-- The array holds these elements, or none because it has no block. -/
def Usable (array : MyArray) (xs : List (List UInt8)) : Prop :=
  Holds array xs ∨ Emptied array ∧ xs = []

def MyArray.withBlock (array : MyArray) : MyArray :=
  { array with buffer := some [] }

variable {array : MyArray} {xs : List (List UInt8)} {call : Call}

namespace Emptied

theorem holds (h : Emptied array) : Holds array.withBlock [] where
  size_pos := h.size_pos
  increment_pos := h.increment_pos
  elements_eq := h.elements
  elements_le := Nat.le_of_eq (h.elements.trans h.number.symm)
  pieces := Pieces.nil
  buffer := by
    refine ⟨[], rfl, ?_⟩
    show 0 = array.number * array.size
    rw [h.number, Nat.zero_mul]
  bytes_lt := by
    show array.number * array.size < 2 ^ 32
    rw [h.number, Nat.zero_mul]
    decide

theorem full (h : Emptied array) : array.elements = array.number :=
  h.elements.trans h.number.symm

theorem newBuffer_eq (h : Emptied array) (bytes : Nat) (garbage : Bytes) :
    newBuffer array bytes (some garbage) = some (some (readBytes garbage bytes)) ∧
      newBuffer array.withBlock bytes (some garbage) = some (some (readBytes garbage bytes)) := by
  have hplace : ¬ array.inPlace = true := by
    rw [h.inPlace]
    exact Bool.false_ne_true
  have hplace' : ¬ array.withBlock.inPlace = true := hplace
  rw [newBuffer, newBuffer, if_neg hplace, if_neg hplace', h.buffer]
  simp [myRealloc, MyArray.withBlock]

theorem alloc_eq (h : Emptied array) (garbage : Bytes) :
    myArrayAlloc array (some garbage) = myArrayAlloc array.withBlock (some garbage) := by
  have hfull' : array.withBlock.elements = array.withBlock.number := h.full
  rw [myArrayAlloc, myArrayAlloc, if_pos h.full, if_pos hfull']
  simp only [(h.newBuffer_eq _ garbage).left, (h.newBuffer_eq _ garbage).right]
  rfl

theorem insert_eq (h : Emptied array) (element garbage : Bytes) :
    myArrayInsert array element (some garbage) =
      myArrayInsert array.withBlock element (some garbage) := by
  have hfull' : array.withBlock.elements = array.withBlock.number := h.full
  rw [myArrayInsert, myArrayInsert, insertPlace, insertPlace, if_pos h.full, if_pos hfull',
    h.alloc_eq]

theorem set_eq (h : Emptied array) (element garbage : Bytes) (idx : Nat) :
    myArraySet array element idx (some garbage) =
      myArraySet array.withBlock element idx (some garbage) := by
  have hbeyond : array.elements <= idx := h.elements ▸ Nat.zero_le idx
  have hgrows : array.number <= idx := h.number ▸ Nat.zero_le idx
  have hincrement : ¬ array.increment = 0 := Nat.ne_of_gt h.increment_pos
  have hbeyond' : array.withBlock.elements <= idx := hbeyond
  have hgrows' : array.withBlock.number <= idx := hgrows
  have hincrement' : ¬ array.withBlock.increment = 0 := hincrement
  rw [myArraySet, myArraySet, if_pos hbeyond, if_pos hbeyond', allocateFor, allocateFor,
    if_pos hgrows, if_pos hgrows', myArrayAllocate, myArrayAllocate, if_pos hgrows,
    if_pos hgrows', if_neg hincrement, if_neg hincrement']
  simp only [(h.newBuffer_eq _ garbage).left, (h.newBuffer_eq _ garbage).right]
  rfl

end Emptied

/-- A call does to the array what it does to the list, block or no block. -/
theorem Usable.step (h : Usable array xs) (hallowed : call.Allowed array) :
    exists array', call.apply array = some (call.answer array.size xs, array') ∧
      Usable array' (call.onList array.size xs) ∧ array'.size = array.size := by
  rcases h with hholds | ⟨hempty, hxs⟩
  · rcases hholds.step hallowed with ⟨array', hcall, hholds', hsize⟩
    exact ⟨array', hcall, Or.inl hholds', hsize⟩
  · subst hxs
    have hblock : call.Allowed array.withBlock := by
      cases call <;> exact hallowed
    have hstep := hempty.holds.step hblock
    cases call with
    | insert element garbage =>
        rcases hstep with ⟨array', hcall, hholds, hsize⟩
        rw [Call.apply, ← hempty.insert_eq] at hcall
        exact ⟨array', hcall, Or.inl hholds, hsize⟩
    | alloc element garbage =>
        rcases hstep with ⟨array', hcall, hholds, hsize⟩
        rw [Call.apply, ← hempty.alloc_eq] at hcall
        exact ⟨array', hcall, Or.inl hholds, hsize⟩
    | set element idx garbage =>
        rcases hstep with ⟨array', hcall, hholds, hsize⟩
        rw [Call.apply, ← hempty.set_eq] at hcall
        exact ⟨array', hcall, Or.inl hholds, hsize⟩
    | pop =>
        refine ⟨array, ?_, Or.inr ⟨hempty, rfl⟩, rfl⟩
        rw [Call.apply, myArrayPop, if_neg (not_not_intro hempty.elements)]
        rfl
    | get idx =>
        refine ⟨array, ?_, Or.inr ⟨hempty, rfl⟩, rfl⟩
        rw [Call.apply, myArrayGet, if_pos (hempty.elements ▸ Nat.zero_le idx)]
        rfl
    | delete idx =>
        have hlt : idx < array.elements := hallowed
        rw [hempty.elements] at hlt
        exact absurd hlt (Nat.not_lt_zero idx)
    | free garbage =>
        refine ⟨array, ?_, Or.inr ⟨hempty, rfl⟩, rfl⟩
        have hplace : ¬ array.inPlace = true := by
          rw [hempty.inPlace]
          exact Bool.false_ne_true
        rw [Call.apply, myArrayFree, if_neg hplace, hempty.buffer]
        rfl

theorem Usable.uninit (h : Usable array xs) :
    Usable (myArrayUninit array) [] ∧ (myArrayUninit array).size = array.size := by
  rw [myArrayUninit]
  rcases h with hholds | ⟨hempty, _⟩
  · rcases hholds.buffer with ⟨spare, hbuffer, hlength⟩
    by_cases hplace : array.inPlace = true
    · rw [if_pos hplace]
      refine ⟨Or.inl ?_, rfl⟩
      exact {
        size_pos := hholds.size_pos
        increment_pos := hholds.increment_pos
        elements_eq := rfl
        elements_le := Nat.zero_le _
        pieces := Pieces.nil
        buffer := ⟨xs.flatten ++ spare, hbuffer, hlength⟩
        bytes_lt := hholds.bytes_lt }
    · have hsome : array.buffer.isSome = true := by
        rw [hbuffer]
        rfl
      rw [if_neg hplace, if_pos hsome]
      refine ⟨Or.inr ⟨?_, rfl⟩, rfl⟩
      exact {
        size_pos := hholds.size_pos
        increment_pos := hholds.increment_pos
        buffer := rfl
        inPlace := Bool.eq_false_of_not_eq_true hplace
        elements := rfl
        number := rfl }
  · have hplace : ¬ array.inPlace = true := by
      rw [hempty.inPlace]
      exact Bool.false_ne_true
    have hnone : ¬ array.buffer.isSome = true := by
      rw [hempty.buffer]
      exact Bool.false_ne_true
    rw [if_neg hplace, if_neg hnone]
    exact ⟨Or.inr ⟨hempty, rfl⟩, rfl⟩

/-!
## Runs over several uses
-/

inductive LifeCall where
  | call (call : Call)
  | uninit

namespace LifeCall

def apply (array : MyArray) : LifeCall -> Option (Answer × MyArray)
  | .call call => call.apply array
  | .uninit => some (.nothing, myArrayUninit array)

def Allowed (array : MyArray) : LifeCall -> Prop
  | .call call => call.Allowed array
  | .uninit => True

def onList (size : Nat) (xs : List (List UInt8)) : LifeCall -> List (List UInt8)
  | .call call => call.onList size xs
  | .uninit => []

def answer (size : Nat) (xs : List (List UInt8)) : LifeCall -> Answer
  | .call call => call.answer size xs
  | .uninit => .nothing

end LifeCall

inductive LifeRun (start : MyArray) : List LifeCall -> MyArray -> Prop
  | nil : LifeRun start [] start
  | snoc {calls : List LifeCall} {array array' : MyArray} {call : LifeCall} {answer : Answer} :
      LifeRun start calls array -> call.Allowed array ->
      call.apply array = some (answer, array') -> LifeRun start (calls ++ [call]) array'

def listAfter (size : Nat) (xs : List (List UInt8)) (calls : List LifeCall) :
    List (List UInt8) :=
  calls.foldl (LifeCall.onList size) xs

variable {start : MyArray} {calls : List LifeCall}

theorem Usable.life (h : Usable array xs) {call : LifeCall} (hallowed : call.Allowed array) :
    exists array', call.apply array = some (call.answer array.size xs, array') ∧
      Usable array' (call.onList array.size xs) ∧ array'.size = array.size := by
  cases call with
  | call call => exact h.step hallowed
  | uninit => exact ⟨myArrayUninit array, rfl, h.uninit⟩

theorem LifeRun.usable (h : Holds start xs) (hrun : LifeRun start calls array) :
    Usable array (listAfter start.size xs calls) ∧ array.size = start.size := by
  induction hrun with
  | nil => exact ⟨Or.inl h, rfl⟩
  | snoc _ hallowed hcall ih =>
      rcases ih with ⟨husable, hsize⟩
      rcases husable.life hallowed with ⟨array', hcall', husable', hsize'⟩
      rw [hcall] at hcall'
      cases hcall'
      rw [listAfter, List.foldl_append]
      rw [hsize] at husable' hsize'
      exact ⟨husable', hsize'⟩

theorem Usable.elements_eq (h : Usable array xs) : array.elements = xs.length := by
  rcases h with hholds | ⟨hempty, hxs⟩
  · exact hholds.elements_eq
  · rw [hxs]
    exact hempty.elements

end GrowableArray
end MyLibs
