import MyLibs.GrowableArray.Runs

/-!
# Sizes of the buffer

An array and the length of the block last obtained for it, over calls of which
any may find no memory. The block has room for `number` elements as long as no
sum or product on the way to a byte count wraps.
-/

namespace MyLibs
namespace GrowableArray

open Foundation

/-!
## Calls that may find no memory
-/

inductive Request where
  | insert (element : Bytes) (room : Option Bytes)
  | alloc (room : Option Bytes)
  | set (element : Bytes) (idx : Nat) (room : Option Bytes)
  | pop
  | delete (idx : Nat)
  | free (room : Option Bytes)
  /-- The caller writes to the buffer, where an element is. -/
  | store (offset : Nat) (bytes : List UInt8)

namespace Request

def apply (array : MyArray) : Request -> Option (Answer × MyArray)
  | .insert element room => do
      let (r, array) <- myArrayInsert array element room
      some (.code r, array)
  | .alloc room => do
      let (place, array) <- myArrayAlloc array room
      some (.place place, array)
  | .set element idx room => do
      let (r, array) <- myArraySet array element idx room
      some (.code r, array)
  | .pop =>
      let (place, array) := myArrayPop array
      some (.place place, array)
  | .delete idx => do
      let array <- myArrayDelete array idx
      some (.nothing, array)
  | .free room => some (.nothing, myArrayFree array room)
  | .store offset bytes => do
      let array <- array.write offset bytes
      some (.nothing, array)

/-- An index is an `unsigned int`, and what is deleted is in use. -/
def Valid (array : MyArray) : Request -> Prop
  | .set _ idx _ => idx < 2 ^ 32
  | .delete idx => idx < array.elements
  | _ => True

def found : Request -> Option Bytes
  | .insert _ room => room
  | .alloc room => room
  | .set _ _ room => room
  | .free room => room
  | _ => none

def Allocates (array : MyArray) : Request -> Prop
  | .insert _ _ => array.elements = array.number
  | .alloc _ => array.elements = array.number
  | .set _ idx _ => array.elements <= idx ∧ array.number <= idx
  | .free _ => array.inPlace = false ∧ array.buffer.isSome = true ∧
      array.number ≠ max array.elements 1
  | _ => False

/-- The byte count of the block that a call asks for fits an `unsigned int`, and
so does every number on the way to it. -/
def Fits (array : MyArray) : Request -> Prop
  | .insert _ _ => (array.number + array.increment) * array.size < 2 ^ 32
  | .alloc _ => (array.number + array.increment) * array.size < 2 ^ 32
  | .set _ idx _ => RoundUpFits array idx
  | .free _ => max array.elements 1 * array.size < 2 ^ 32
  | _ => True

def NoWrap (array : MyArray) (request : Request) : Prop :=
  request.found.isSome = true -> request.Allocates array -> request.Fits array

end Request

/-- The length of the block last obtained: it is the buffer, unless that is
lost. -/
def blockAfter (array : MyArray) (block : Nat) : Nat :=
  array.buffer.elim block List.length

/-- The arrays that calls lead to from `my_array_init`, with the length of the
block last obtained, when no byte count wraps. A buffer that the caller passes on
counts as a block. -/
inductive Reached : MyArray -> Nat -> Prop
  | init {buffer : Option (List UInt8)} {inPlace : Bool} {number increment size : Nat}
      {room : Option Bytes} {array : MyArray} (hnumber : number < 2 ^ 32)
      (hincrement : increment < 2 ^ 32)
      (hbuffer : forall block, buffer = some block -> block.length = number * size)
      (hinit : myArrayInit buffer inPlace number increment size room = some array)
      (hsize_pos : 0 < array.size) (hincrement_pos : 0 < array.increment)
      (hfits : number = 0 ∨ buffer = none -> array.number * array.size < 2 ^ 32) :
      Reached array (blockAfter array 0)
  | step {array array' : MyArray} {block : Nat} {request : Request} {answer : Answer}
      (hreached : Reached array block) (hvalid : request.Valid array)
      (hfits : request.NoWrap array) (happly : request.apply array = some (answer, array')) :
      Reached array' (blockAfter array' block)

/-!
## What each function leaves

The array after a call, whatever its allocation finds.
-/

def Overwritten (array array' : MyArray) : Prop :=
  exists old new : List UInt8, array.buffer = some old ∧ new.length = old.length ∧
    array' = { array with buffer := some new }

def MyArray.moved (array : MyArray) (bytes : List UInt8) (number : Nat) : MyArray :=
  { array with buffer := some bytes, inPlace := false, number := number }

section Cases

variable {array array' : MyArray} {room : Option Bytes} {idx : Nat}

theorem write_overwrites {offset : Nat} {bytes : List UInt8}
    (h : array.write offset bytes = some array') : Overwritten array array' := by
  rw [MyArray.write] at h
  rcases Option.bind_eq_some_iff.mp h with ⟨old, hold, hrest⟩
  rcases Option.bind_eq_some_iff.mp hrest with ⟨new, hsplice, hnew⟩
  exact ⟨old, new, hold, splice_length hsplice, (Option.some.inj hnew).symm⟩

/-- A reallocation to this many bytes that finds no room has freed the buffer. -/
def MyArray.LosesBuffer (array : MyArray) (bytes : Nat) : Prop :=
  array.inPlace = false ∧ bytes = 0 ∧ array.buffer.isSome = true

theorem newBuffer_lost {array : MyArray} {bytes : Nat} (h : array.LosesBuffer bytes) :
    newBuffer array bytes none = none := by
  rcases h with ⟨hplace, hzero, hbuffer⟩
  rw [newBuffer, if_neg (Bool.eq_false_iff.mp hplace), if_pos ⟨hzero, hbuffer, rfl⟩]

theorem newBuffer_none {array : MyArray} {bytes : Nat} (h : ¬ array.LosesBuffer bytes) :
    newBuffer array bytes none = some none := by
  rw [newBuffer]
  split
  · rfl
  · rename_i hplace
    have hkept : ¬ (bytes = 0 ∧ array.buffer.isSome = true ∧
        (none : Option Bytes).isNone = true) :=
      fun hlost => h ⟨Bool.eq_false_iff.mpr hplace, hlost.left, hlost.right.left⟩
    rw [if_neg hkept]
    rfl

theorem eq_none_of_newBuffer {array : MyArray} {bytes : Nat} {result : Option (List UInt8)}
    (h : newBuffer array bytes none = some result) : result = none := by
  by_cases hlost : array.LosesBuffer bytes
  · rw [newBuffer_lost hlost] at h
    cases h
  · rw [newBuffer_none hlost] at h
    exact (Option.some.inj h).symm

theorem length_newBuffer {bytes : Nat} {garbage : Bytes} {result : Option (List UInt8)}
    (h : newBuffer array bytes (some garbage) = some result) :
    exists block, result = some block ∧ block.length = bytes := by
  rw [newBuffer] at h
  split at h
  · simp only [myMalloc, Option.map_some] at h
    rcases Option.bind_eq_some_iff.mp h with ⟨buffer, _, hcopy⟩
    rcases Option.bind_eq_some_iff.mp hcopy with ⟨old, _, hsplice⟩
    rcases Option.bind_eq_some_iff.mp hsplice with ⟨fresh, hfresh, hresult⟩
    have hlength := splice_length hfresh
    rw [length_readBytes] at hlength
    exact ⟨fresh, (Option.some.inj hresult).symm, hlength⟩
  · rcases length_myRealloc array.buffer bytes garbage with ⟨block, hrealloc, hlength⟩
    rw [if_neg (by simp), hrealloc] at h
    exact ⟨block, (Option.some.inj h).symm, hlength⟩

theorem myArrayAlloc_cases {place : Option Nat}
    (h : myArrayAlloc array room = some (place, array')) :
    (array.elements ≠ array.number ∧ (place, array') = takeSlot array) ∨
      (array.elements = array.number ∧ room = none ∧ place = none ∧ array' = array) ∨
      (array.elements = array.number ∧ room.isSome = true ∧ exists bytes : List UInt8,
        bytes.length = uint (uint (array.number + array.increment) * array.size) ∧
        (place, array') = takeSlot
          (array.moved bytes (uint (array.number + array.increment)))) := by
  rw [myArrayAlloc] at h
  split at h
  · rename_i hfull
    rcases Option.bind_eq_some_iff.mp h with ⟨result, hnew, hplace⟩
    cases room with
    | none =>
        cases eq_none_of_newBuffer hnew
        cases hplace
        exact Or.inr (Or.inl ⟨hfull, rfl, rfl, rfl⟩)
    | some garbage =>
        rcases length_newBuffer hnew with ⟨bytes, hresult, hlength⟩
        rw [hresult] at hplace
        exact Or.inr (Or.inr ⟨hfull, rfl, bytes, hlength, (Option.some.inj hplace).symm⟩)
  · rename_i hroom
    exact Or.inl ⟨hroom, (Option.some.inj h).symm⟩

theorem myArrayAlloc_grows {place : Option Nat}
    (h : myArrayAlloc array room = some (place, array')) (hfull : array.elements = array.number)
    (hfound : room.isSome = true) : exists bytes : List UInt8,
      bytes.length = uint (uint (array.number + array.increment) * array.size) ∧
      (place, array') = takeSlot (array.moved bytes (uint (array.number + array.increment))) := by
  rcases myArrayAlloc_cases h with ⟨hroom, _⟩ | ⟨_, hnone, _, _⟩ | ⟨_, _, hgrown⟩
  · exact absurd hfull hroom
  · rw [hnone] at hfound
    exact absurd hfound Bool.false_ne_true
  · exact hgrown

theorem insertPlace_eq (array : MyArray) (room : Option Bytes) :
    insertPlace array room = myArrayAlloc array room := by
  rw [insertPlace]
  split
  · rfl
  · rename_i hroom
    rw [myArrayAlloc, if_neg hroom]

theorem myArrayInsert_cases {element : Bytes} {r : Nat}
    (h : myArrayInsert array element room = some (r, array')) :
    exists place taken, myArrayAlloc array room = some (place, taken) ∧
      ((place = none ∧ r = 1 ∧ array' = taken) ∨
        (place.isSome = true ∧ r = 0 ∧ Overwritten taken array')) := by
  rw [myArrayInsert, insertPlace_eq] at h
  rcases Option.bind_eq_some_iff.mp h with ⟨⟨place, taken⟩, halloc, hcopy⟩
  refine ⟨place, taken, halloc, ?_⟩
  cases place with
  | none =>
      cases hcopy
      exact Or.inl ⟨rfl, rfl, rfl⟩
  | some offset =>
      rcases Option.bind_eq_some_iff.mp hcopy with ⟨written, hwrite, hanswer⟩
      cases hanswer
      exact Or.inr ⟨rfl, rfl, write_overwrites hwrite⟩

def roundUp (array : MyArray) (idx : Nat) : Nat :=
  uint (uint (idx + array.increment) / array.increment * array.increment)

theorem allocateFor_cases {failed : Nat}
    (h : allocateFor array idx room = some (failed, array')) :
    (idx < array.number ∧ failed = 0 ∧ array' = array) ∨
      (array.number <= idx ∧ room = none ∧ failed = 1 ∧ array' = array) ∨
      (array.number <= idx ∧ room.isSome = true ∧ failed = 0 ∧ exists bytes : List UInt8,
        bytes.length = uint (roundUp array idx * array.size) ∧
        array' = array.moved bytes (roundUp array idx)) := by
  rw [allocateFor] at h
  split at h
  · rename_i hfull
    rw [myArrayAllocate, if_pos hfull] at h
    split at h
    · cases h
    · rcases Option.bind_eq_some_iff.mp h with ⟨result, hnew, hanswer⟩
      cases room with
      | none =>
          cases eq_none_of_newBuffer hnew
          cases hanswer
          exact Or.inr (Or.inl ⟨hfull, rfl, rfl, rfl⟩)
      | some garbage =>
          rcases length_newBuffer hnew with ⟨bytes, hresult, hlength⟩
          rw [hresult] at hanswer
          cases hanswer
          exact Or.inr (Or.inr ⟨hfull, rfl, rfl, bytes, hlength, rfl⟩)
  · rename_i hroom
    cases h
    exact Or.inl ⟨Nat.lt_of_not_le hroom, rfl, rfl⟩

theorem allocateFor_grows {failed : Nat}
    (h : allocateFor array idx room = some (failed, array')) (hfull : array.number <= idx)
    (hfound : room.isSome = true) : failed = 0 ∧ exists bytes : List UInt8,
      bytes.length = uint (roundUp array idx * array.size) ∧
      array' = array.moved bytes (roundUp array idx) := by
  rcases allocateFor_cases h with ⟨hroom, _, _⟩ | ⟨_, hnone, _, _⟩ | ⟨_, _, hgrown⟩
  · exact absurd hroom (Nat.not_lt.mpr hfull)
  · rw [hnone] at hfound
    exact absurd hfound Bool.false_ne_true
  · exact hgrown

theorem myArraySet_cases {element : Bytes} {r : Nat}
    (h : myArraySet array element idx room = some (r, array')) :
    (idx < array.elements ∧ r = 0 ∧ Overwritten array array') ∨
      (array.elements <= idx ∧ exists failed roomy,
        allocateFor array idx room = some (failed, roomy) ∧
        ((failed ≠ 0 ∧ r = 1 ∧ array' = roomy) ∨
          (failed = 0 ∧ r = 0 ∧
            Overwritten { roomy with elements := uint (idx + 1) } array'))) := by
  rw [myArraySet] at h
  split at h
  · rename_i hbeyond
    rcases Option.bind_eq_some_iff.mp h with ⟨⟨failed, roomy⟩, hallocate, hwrites⟩
    refine Or.inr ⟨hbeyond, failed, roomy, hallocate, ?_⟩
    simp only at hwrites
    split at hwrites
    · rename_i hfailed
      cases hwrites
      exact Or.inl ⟨hfailed, rfl, rfl⟩
    · rename_i hroom
      rcases Option.bind_eq_some_iff.mp hwrites with ⟨cleared, hclear, hwrite⟩
      rcases Option.bind_eq_some_iff.mp hwrite with ⟨written, helement, hanswer⟩
      cases hanswer
      rcases write_overwrites hclear with ⟨old, middle, hold, hmiddle, hcleared⟩
      rcases write_overwrites helement with ⟨_, new, hthere, hnew, hwritten⟩
      subst hcleared
      cases hthere
      exact Or.inr ⟨Decidable.not_not.mp hroom, rfl, old, new, hold, hnew.trans hmiddle, hwritten⟩
  · rename_i hinside
    rcases Option.bind_eq_some_iff.mp h with ⟨written, hwrite, hanswer⟩
    cases hanswer
    exact Or.inl ⟨Nat.lt_of_not_le hinside, rfl, write_overwrites hwrite⟩

theorem myArrayDelete_cases (h : myArrayDelete array idx = some array') :
    exists written, Overwritten array written ∧
      array' = { written with elements := uint (array.elements + (2 ^ 32 - 1)) } := by
  rw [myArrayDelete] at h
  rcases Option.bind_eq_some_iff.mp h with ⟨buffer, _, hmove⟩
  rcases Option.bind_eq_some_iff.mp hmove with ⟨behind, _, hwrite⟩
  rcases Option.bind_eq_some_iff.mp hwrite with ⟨written, hwritten, hanswer⟩
  exact ⟨written, write_overwrites hwritten, (Option.some.inj hanswer).symm⟩

theorem myArrayFree_cases (array : MyArray) (room : Option Bytes) :
    (¬ (Request.free room).Allocates array ∧ myArrayFree array room = array) ∨
      ((Request.free room).Allocates array ∧ myArrayFree array room = { array with
        buffer := myRealloc array.buffer (uint (max array.elements 1 * array.size)) room
        number := max array.elements 1 }) := by
  rw [myArrayFree]
  split
  · rename_i hplace
    refine Or.inl ⟨fun h => ?_, rfl⟩
    rw [h.left] at hplace
    exact Bool.false_ne_true hplace
  · rename_i hplace
    split
    · rename_i hchange
      exact Or.inr ⟨⟨Bool.eq_false_iff.mpr hplace, hchange.left, hchange.right⟩, rfl⟩
    · rename_i hsame
      exact Or.inl ⟨fun h => hsame h.right, rfl⟩

end Cases

/-!
## The block has room
-/

/-- The block last obtained has room for all elements, and is the buffer unless
that is lost. -/
structure Sized (array : MyArray) (block : Nat) : Prop where
  size_pos : 0 < array.size
  increment_pos : 0 < array.increment
  increment_lt : array.increment < 2 ^ 32
  number_pos : 0 < array.number
  number_lt : array.number < 2 ^ 32
  elements_le : array.elements <= array.number
  room : array.number * array.size <= block
  block_eq : forall bytes, array.buffer = some bytes -> bytes.length = block

namespace Sized

variable {array array' : MyArray} {block : Nat}

theorem rebuilt (h : Sized array block) {buffer : Option (List UInt8)} {inPlace : Bool}
    {elements number block' : Nat} (hpos : 0 < number) (hlt : number < 2 ^ 32)
    (helements : elements <= number) (hroom : number * array.size <= block')
    (hblock : forall bytes, buffer = some bytes -> bytes.length = block') :
    Sized { array with
      buffer := buffer, inPlace := inPlace, elements := elements, number := number } block' where
  size_pos := h.size_pos
  increment_pos := h.increment_pos
  increment_lt := h.increment_lt
  number_pos := hpos
  number_lt := hlt
  elements_le := helements
  room := hroom
  block_eq := hblock

theorem overwritten (h : Sized array block) (hwritten : Overwritten array array') :
    Sized array' block := by
  rcases hwritten with ⟨old, new, hold, hnew, rfl⟩
  apply h.rebuilt h.number_pos h.number_lt h.elements_le h.room
  intro bytes hbytes
  cases hbytes
  exact hnew.trans (h.block_eq old hold)

theorem moved (h : Sized array block) {bytes : List UInt8} {number : Nat}
    (hpos : 0 < number) (hlt : number < 2 ^ 32) (helements : array.elements <= number)
    (hbytes : bytes.length = number * array.size) :
    Sized (array.moved bytes number) bytes.length := by
  apply h.rebuilt hpos hlt helements (Nat.le_of_eq hbytes.symm)
  intro other hother
  cases hother
  rfl

theorem withElements (h : Sized array block) {elements : Nat} (hle : elements <= array.number) :
    Sized { array with elements := elements } block :=
  h.rebuilt h.number_pos h.number_lt hle h.room h.block_eq

theorem blockAfter_eq {before : Nat} (h : Sized array block)
    (hlost : array.buffer = none -> block = before) : blockAfter array before = block := by
  rw [blockAfter]
  cases hbuffer : array.buffer with
  | none => exact (hlost hbuffer).symm
  | some bytes => exact h.block_eq bytes hbuffer

end Sized

section Steps

variable {array array' : MyArray} {block : Nat} {room : Option Bytes} {idx : Nat}

theorem Overwritten.blockAfter_eq (hwritten : Overwritten array array') (h : Sized array block)
    (before : Nat) : blockAfter array' before = block := by
  refine (h.overwritten hwritten).blockAfter_eq fun hnone => ?_
  rcases hwritten with ⟨_, new, _, _, rfl⟩
  cases hnone

theorem Sized.take (h : Sized array block) (hroom : array.elements < array.number) :
    Sized (takeSlot array).2 block ∧ array.elements <= (takeSlot array).2.elements := by
  have hnext : uint (array.elements + 1) = array.elements + 1 := by
    apply uint_of_lt
    have hlt := h.number_lt
    omega
  rw [takeSlot, hnext]
  exact ⟨h.withElements hroom, Nat.le_succ _⟩

theorem Sized.alloc (h : Sized array block) {place : Option Nat}
    (hfits : room.isSome = true -> array.elements = array.number ->
      (array.number + array.increment) * array.size < 2 ^ 32)
    (halloc : myArrayAlloc array room = some (place, array')) :
    Sized array' (blockAfter array' block) ∧ array.elements <= array'.elements := by
  rcases myArrayAlloc_cases halloc with
    ⟨hroom, htake⟩ | ⟨_, _, _, hsame⟩ | ⟨hfull, hfound, bytes, hlength, htake⟩
  · have hlt : array.elements < array.number := Nat.lt_of_le_of_ne h.elements_le hroom
    have hblock : blockAfter (takeSlot array).2 block = block := h.blockAfter_eq fun _ => rfl
    rw [show array' = (takeSlot array).2 from congrArg Prod.snd htake, hblock]
    exact h.take hlt
  · subst hsame
    rw [h.blockAfter_eq fun _ => rfl]
    exact ⟨h, Nat.le_refl _⟩
  · have hmul := hfits hfound hfull
    have hsum : array.number + array.increment < 2 ^ 32 :=
      Nat.lt_of_le_of_lt (Nat.le_mul_of_pos_right _ h.size_pos) hmul
    have hincrement := h.increment_pos
    rw [uint_of_lt hsum, uint_of_lt hmul] at hlength
    have hmoved : Sized (array.moved bytes (array.number + array.increment)) bytes.length :=
      h.moved (by omega) hsum (by omega) hlength
    rw [show array' = _ from congrArg Prod.snd htake, uint_of_lt hsum]
    apply hmoved.take
    show array.elements < array.number + array.increment
    omega

theorem Sized.insert (h : Sized array block) {element : Bytes} {r : Nat}
    (hfits : room.isSome = true -> array.elements = array.number ->
      (array.number + array.increment) * array.size < 2 ^ 32)
    (hinsert : myArrayInsert array element room = some (r, array')) :
    Sized array' (blockAfter array' block) ∧ array.elements <= array'.elements := by
  rcases myArrayInsert_cases hinsert with
    ⟨place, taken, halloc, ⟨_, _, hsame⟩ | ⟨_, _, hwritten⟩⟩
  · subst hsame
    exact h.alloc hfits halloc
  · rcases h.alloc hfits halloc with ⟨htaken, hkept⟩
    rw [hwritten.blockAfter_eq htaken]
    refine ⟨htaken.overwritten hwritten, ?_⟩
    rcases hwritten with ⟨_, _, _, _, rfl⟩
    exact hkept

theorem roundUp_of_fits (hfits : RoundUpFits array idx) (hpos : 0 < array.size) :
    roundUp array idx = (idx + array.increment) / array.increment * array.increment ∧
      roundUp array idx * array.size < 2 ^ 32 := by
  rcases hfits with ⟨hsum, hmul⟩
  have hle := Nat.le_mul_of_pos_right
    ((idx + array.increment) / array.increment * array.increment) hpos
  have heq : roundUp array idx =
      (idx + array.increment) / array.increment * array.increment := by
    rw [roundUp, uint_of_lt hsum, uint_of_lt (Nat.lt_of_le_of_lt hle hmul)]
  exact ⟨heq, heq ▸ hmul⟩

theorem Sized.allocateFor (h : Sized array block) {failed : Nat}
    (helements : array.elements <= idx)
    (hfits : room.isSome = true -> array.number <= idx -> RoundUpFits array idx)
    (hallocate : allocateFor array idx room = some (failed, array')) :
    Sized array' (blockAfter array' block) ∧ array'.elements = array.elements ∧
      (failed = 0 -> idx < array'.number) := by
  rcases allocateFor_cases hallocate with
    ⟨hroom, _, hsame⟩ | ⟨_, _, hfailed, hsame⟩ | ⟨hfull, hfound, _, bytes, hlength, hmoved⟩
  · subst hsame
    rw [h.blockAfter_eq fun _ => rfl]
    exact ⟨h, rfl, fun _ => hroom⟩
  · subst hsame
    rw [h.blockAfter_eq fun _ => rfl]
    exact ⟨h, rfl, fun hzero => absurd (hzero.symm.trans hfailed) (by decide)⟩
  · subst hmoved
    rcases roundUp_of_fits (hfits hfound hfull) h.size_pos with ⟨heq, hmul⟩
    have hround : idx < roundUp array idx := heq ▸ lt_roundUp h.increment_pos idx
    have hlt : roundUp array idx < 2 ^ 32 :=
      Nat.lt_of_le_of_lt (Nat.le_mul_of_pos_right _ h.size_pos) hmul
    rw [uint_of_lt hmul] at hlength
    exact ⟨h.moved (by omega) hlt (by omega) hlength, rfl, fun _ => hround⟩

theorem Sized.set (h : Sized array block) {element : Bytes} {r : Nat} 
    (hfits : room.isSome = true -> array.elements <= idx ∧ array.number <= idx ->
      RoundUpFits array idx)
    (hset : myArraySet array element idx room = some (r, array')) :
    Sized array' (blockAfter array' block) ∧ array.elements <= array'.elements ∧
      (r = 0 -> idx < array'.elements) := by
  rcases myArraySet_cases hset with
    ⟨hinside, _, hwritten⟩ | ⟨hbeyond, failed, roomy, hallocate, hrest⟩
  · rw [hwritten.blockAfter_eq h]
    refine ⟨h.overwritten hwritten, ?_⟩
    rcases hwritten with ⟨_, _, _, _, rfl⟩
    exact ⟨Nat.le_refl _, fun _ => hinside⟩
  · rcases h.allocateFor hbeyond (fun hfound hfull => hfits hfound ⟨hbeyond, hfull⟩) hallocate with
      ⟨hroomy, helements, hroom⟩
    rcases hrest with ⟨_, hr, hsame⟩ | ⟨hzero, _, hwritten⟩
    · subst hsame
      exact ⟨hroomy, Nat.le_of_eq helements.symm,
        fun hzero => absurd (hzero.symm.trans hr) (by decide)⟩
    · have hlt := hroom hzero
      have hnumber := hroomy.number_lt
      have hnext : uint (idx + 1) = idx + 1 := uint_of_lt (by omega)
      rw [hnext] at hwritten
      have hcounted := hroomy.withElements hlt
      rw [hwritten.blockAfter_eq hcounted]
      refine ⟨hcounted.overwritten hwritten, ?_⟩
      rcases hwritten with ⟨_, _, _, _, rfl⟩
      exact ⟨by show array.elements <= idx + 1; omega, fun _ => Nat.lt_succ_self idx⟩

theorem Sized.pop (h : Sized array block) :
    Sized (myArrayPop array).2 (blockAfter (myArrayPop array).2 block) := by
  rw [myArrayPop]
  split
  · rw [show blockAfter { array with elements := array.elements - 1 } block =
        blockAfter array block from rfl, h.blockAfter_eq fun _ => rfl]
    exact h.withElements (Nat.le_trans (Nat.sub_le ..) h.elements_le)
  · rw [h.blockAfter_eq fun _ => rfl]
    exact h

theorem Sized.delete (h : Sized array block) (hidx : idx < array.elements)
    (hdelete : myArrayDelete array idx = some array') :
    Sized array' (blockAfter array' block) := by
  rcases myArrayDelete_cases hdelete with ⟨written, hwritten, rfl⟩
  have hle := h.elements_le
  have hlt := h.number_lt
  rw [uint_pred (by omega) (by omega),
    show blockAfter { written with elements := array.elements - 1 } block =
      blockAfter written block from rfl, hwritten.blockAfter_eq h]
  apply (h.overwritten hwritten).withElements
  rcases hwritten with ⟨_, _, _, _, rfl⟩
  show array.elements - 1 <= array.number
  omega

theorem Sized.free (h : Sized array block)
    (hfits : room.isSome = true -> (Request.free room).Allocates array ->
      max array.elements 1 * array.size < 2 ^ 32) :
    Sized (myArrayFree array room) (blockAfter (myArrayFree array room) block) := by
  rcases myArrayFree_cases array room with ⟨_, hsame⟩ | ⟨hallocates, hfreed⟩
  · rw [hsame, h.blockAfter_eq fun _ => rfl]
    exact h
  · have hle := h.elements_le
    have hpos := h.number_pos
    have hlt := h.number_lt
    have hmax : max array.elements 1 <= array.number := by omega
    have hshorter : max array.elements 1 * array.size <= block :=
      Nat.le_trans (Nat.mul_le_mul_right _ hmax) h.room
    have hbelow : max array.elements 1 < 2 ^ 32 := Nat.lt_of_le_of_lt hmax hlt
    rw [hfreed]
    cases room with
    | none =>
        exact h.rebuilt (Nat.le_max_right ..) hbelow (Nat.le_max_left ..) hshorter
          fun _ hbytes => by cases hbytes
    | some garbage =>
        rcases length_myRealloc array.buffer (uint (max array.elements 1 * array.size)) garbage with
          ⟨bytes, hrealloc, hlength⟩
        rw [uint_of_lt (hfits rfl hallocates)] at hlength hrealloc ⊢
        rw [hrealloc]
        apply h.rebuilt (Nat.le_max_right ..) hbelow (Nat.le_max_left ..)
          (Nat.le_of_eq hlength.symm)
        intro other hother
        cases hother
        rfl

end Steps

/-!
## Whole runs
-/

structure Roomy (before after : MyArray) (block : Nat) : Prop where
  room : after.number * after.size <= block
  elements_le : after.elements <= after.number
  kept : before.elements <= after.elements

namespace Request

/-- A success of `my_array_insert`, `my_array_alloc` or `my_array_set` keeps its
promise. -/
def KeepsPromise (before after : MyArray) (block : Nat) (answer : Answer) : Request -> Prop
  | .insert _ _ => answer = .code 0 -> Roomy before after block
  | .alloc _ => forall offset, answer = .place (some offset) -> Roomy before after block
  | .set _ idx _ => answer = .code 0 -> Roomy before after block ∧ idx < after.elements
  | _ => True

def Adds : Request -> Prop
  | .insert _ _ => True
  | .alloc _ => True
  | .set _ _ _ => True
  | _ => False

end Request

section Runs

variable {array array' : MyArray} {block : Nat} {request : Request} {answer : Answer}

theorem Sized.roomy {before : MyArray} (h : Sized array block)
    (hkept : before.elements <= array.elements) : Roomy before array block where
  room := h.room
  elements_le := h.elements_le
  kept := hkept

/-- A call for which no byte count wraps keeps the invariant and its promise. -/
theorem Sized.step (h : Sized array block) (hvalid : request.Valid array)
    (hfits : request.NoWrap array) (happly : request.apply array = some (answer, array')) :
    Sized array' (blockAfter array' block) ∧
      request.KeepsPromise array array' (blockAfter array' block) answer := by
  cases request with
  | insert element room =>
      rcases Option.bind_eq_some_iff.mp happly with ⟨⟨r, after⟩, hinsert, hanswer⟩
      cases hanswer
      rcases h.insert hfits hinsert with ⟨hsized, hkept⟩
      exact ⟨hsized, fun _ => hsized.roomy hkept⟩
  | alloc room =>
      rcases Option.bind_eq_some_iff.mp happly with ⟨⟨place, after⟩, halloc, hanswer⟩
      cases hanswer
      rcases h.alloc hfits halloc with ⟨hsized, hkept⟩
      exact ⟨hsized, fun _ _ => hsized.roomy hkept⟩
  | set element idx room =>
      rcases Option.bind_eq_some_iff.mp happly with ⟨⟨r, after⟩, hset, hanswer⟩
      cases hanswer
      rcases h.set hfits hset with ⟨hsized, hkept, hinside⟩
      refine ⟨hsized, fun hcode => ⟨hsized.roomy hkept, hinside ?_⟩⟩
      cases hcode
      rfl
  | pop =>
      cases happly
      exact ⟨h.pop, trivial⟩
  | delete idx =>
      rcases Option.bind_eq_some_iff.mp happly with ⟨after, hdelete, hanswer⟩
      cases hanswer
      exact ⟨h.delete hvalid hdelete, trivial⟩
  | free room =>
      cases happly
      exact ⟨h.free hfits, trivial⟩
  | store offset bytes =>
      rcases Option.bind_eq_some_iff.mp happly with ⟨after, hwrite, hanswer⟩
      cases hanswer
      have hwritten := write_overwrites hwrite
      rw [hwritten.blockAfter_eq h]
      exact ⟨h.overwritten hwritten, trivial⟩

theorem storedIncrement_lt {number increment size : Nat} (hincrement : increment < 2 ^ 32) :
    storedIncrement number increment size < 2 ^ 32 := by
  rw [storedIncrement]
  split
  · split
    · exact Nat.mod_lt _ (by decide)
    · have hle := Nat.div_le_self (ARRAT_BLOCK_SIZE - MALLOC_OVERHEAD) size
      have hblock : ARRAT_BLOCK_SIZE - MALLOC_OVERHEAD < 2 ^ 32 := by decide
      exact Nat.max_lt.mpr ⟨Nat.lt_of_le_of_lt hle hblock, by decide⟩
  · exact hincrement

theorem Sized.init {buffer : Option (List UInt8)} {inPlace : Bool}
    {number increment size : Nat} {room : Option Bytes} (hnumber : number < 2 ^ 32)
    (hincrement : increment < 2 ^ 32)
    (hbuffer : forall block, buffer = some block -> block.length = number * size)
    (hinit : myArrayInit buffer inPlace number increment size room = some array)
    (hsize_pos : 0 < array.size) (hincrement_pos : 0 < array.increment)
    (hfits : number = 0 ∨ buffer = none -> array.number * array.size < 2 ^ 32) :
    Sized array (blockAfter array 0) := by
  rcases myArrayInit_cases hinit with ⟨hzero, hsize, hstored, hcount, bytes, hbytes, hwhose⟩
  have hincrement_lt : array.increment < 2 ^ 32 := hstored ▸ storedIncrement_lt hincrement
  have hlength : bytes.length = array.number * array.size := by
    rcases hwhose with ⟨hne, hgiven⟩ | ⟨hown, hlength⟩
    · rw [hbuffer bytes hgiven, hcount, if_neg hne, hsize]
    · rw [hlength, Nat.mul_comm, ← hsize, uint_of_lt (hfits hown)]
  have hblock : blockAfter array 0 = bytes.length := by
    rw [blockAfter, hbytes]
    rfl
  have hbounds : 0 < array.number ∧ array.number < 2 ^ 32 := by
    rw [hcount]
    split
    · exact ⟨hincrement_pos, hincrement_lt⟩
    · rename_i hne
      exact ⟨Nat.pos_of_ne_zero hne, hnumber⟩
  rw [hblock]
  exact {
    size_pos := hsize_pos
    increment_pos := hincrement_pos
    increment_lt := hincrement_lt
    number_pos := hbounds.left
    number_lt := hbounds.right
    elements_le := hzero ▸ Nat.zero_le _
    room := Nat.le_of_eq hlength.symm
    block_eq := by
      intro other hother
      rw [hbytes] at hother
      cases hother
      rfl }

theorem Reached.sized (h : Reached array block) : Sized array block := by
  induction h with
  | init hnumber hincrement hbuffer hinit hsize_pos hincrement_pos hfits =>
      exact Sized.init hnumber hincrement hbuffer hinit hsize_pos hincrement_pos hfits
  | step _ hvalid hfits happly ih => exact (ih.step hvalid hfits happly).left

/-!
## Byte counts that wrap
-/

/-- A product is kept by an `unsigned int` only if it fits one. -/
theorem lt_of_le_uint {n : Nat} (h : n <= uint n) : n < 2 ^ 32 :=
  Nat.lt_of_le_of_lt h (Nat.mod_lt n (by decide))

theorem Sized.alloc_fits (h : Sized array block) {taken : MyArray} {bytes : List UInt8}
    (hfull : array.elements = array.number)
    (hlength : bytes.length = uint (uint (array.number + array.increment) * array.size))
    (htaken : taken = (takeSlot (array.moved bytes (uint (array.number + array.increment)))).2)
    (hroomy : Roomy array taken bytes.length) :
    (array.number + array.increment) * array.size < 2 ^ 32 := by
  subst htaken
  have hroom : uint (array.number + array.increment) * array.size <= bytes.length := hroomy.room
  have hle : uint (array.elements + 1) <= uint (array.number + array.increment) :=
    hroomy.elements_le
  have hkept : array.elements <= uint (array.elements + 1) := hroomy.kept
  rw [hlength] at hroom
  have hmul := lt_of_le_uint hroom
  have hsum : array.number + array.increment < 2 ^ 32 := by
    have hnumber := h.number_lt
    have hincrement := h.increment_lt
    rw [hfull] at hle hkept
    unfold uint at hle hkept
    omega
  rwa [uint_of_lt hsum] at hmul

theorem Sized.set_fits (h : Sized array block) {idx : Nat} (hidx : idx < 2 ^ 32)
    (hroom : roundUp array idx * array.size <= uint (roundUp array idx * array.size))
    (hle : uint (idx + 1) <= roundUp array idx) (hinside : idx < uint (idx + 1)) :
    RoundUpFits array idx := by
  have hmul := lt_of_le_uint hroom
  have hsum : idx + array.increment < 2 ^ 32 := by
    have hincrement := h.increment_lt
    have hdown := Nat.div_mul_le_self (uint (idx + array.increment)) array.increment
    have hround : roundUp array idx <= uint (idx + array.increment) :=
      Nat.le_trans (Nat.mod_le _ _) hdown
    unfold uint at hround hinside hle
    omega
  have hdown := Nat.div_mul_le_self (idx + array.increment) array.increment
  rw [roundUp, uint_of_lt hsum, uint_of_lt (Nat.lt_of_le_of_lt hdown hsum)] at hmul
  exact ⟨hsum, hmul⟩

theorem Overwritten.roomy {taken : MyArray} {bytes : List UInt8}
    (hwritten : Overwritten taken array') (hbytes : taken.buffer = some bytes)
    (hroomy : Roomy array array' (blockAfter array' block)) : Roomy array taken bytes.length := by
  rcases hwritten with ⟨old, new, hold, hlength, rfl⟩
  rw [hold] at hbytes
  cases hbytes
  rw [← hlength]
  exact { room := hroomy.room, elements_le := hroomy.elements_le, kept := hroomy.kept }

theorem Sized.insert_fits (h : Sized array block) {element : Bytes} {room : Option Bytes} {r : Nat}
    (hinsert : myArrayInsert array element room = some (r, array'))
    (hfull : array.elements = array.number) (hfound : room.isSome = true)
    (hpromise : r = 0 -> Roomy array array' (blockAfter array' block)) :
    (array.number + array.increment) * array.size < 2 ^ 32 := by
  rcases myArrayInsert_cases hinsert with ⟨place, taken, halloc, hrest⟩
  rcases myArrayAlloc_grows halloc hfull hfound with ⟨bytes, hlength, htake⟩
  have htaken : taken = _ := congrArg Prod.snd htake
  rcases hrest with ⟨hplace, _, _⟩ | ⟨_, hcode, hwritten⟩
  · subst hplace
    cases congrArg Prod.fst htake
  · have hbytes : taken.buffer = some bytes := congrArg MyArray.buffer htaken
    exact h.alloc_fits hfull hlength htaken (hwritten.roomy hbytes (hpromise hcode))

theorem Sized.place_fits (h : Sized array block) {room : Option Bytes} {place : Option Nat}
    (halloc : myArrayAlloc array room = some (place, array'))
    (hfull : array.elements = array.number) (hfound : room.isSome = true)
    (hpromise : place.isSome = true -> Roomy array array' (blockAfter array' block)) :
    (array.number + array.increment) * array.size < 2 ^ 32 := by
  rcases myArrayAlloc_grows halloc hfull hfound with ⟨bytes, hlength, htake⟩
  have htaken : array' = _ := congrArg Prod.snd htake
  have hplace : place = _ := congrArg Prod.fst htake
  have hroomy := hpromise (by rw [hplace]; rfl)
  have hblock : blockAfter array' block = bytes.length := by
    rw [htaken]
    rfl
  rw [hblock] at hroomy
  exact h.alloc_fits hfull hlength htaken hroomy

theorem Sized.index_fits (h : Sized array block) {element : Bytes} {room : Option Bytes}
    {idx r : Nat} (hset : myArraySet array element idx room = some (r, array'))
    (hidx : idx < 2 ^ 32) (hbeyond : array.elements <= idx) (hfull : array.number <= idx)
    (hfound : room.isSome = true)
    (hpromise : r = 0 -> Roomy array array' (blockAfter array' block) ∧ idx < array'.elements) :
    RoundUpFits array idx := by
  rcases myArraySet_cases hset with ⟨hinside, _, _⟩ | ⟨_, failed, roomy, hallocate, hrest⟩
  · exact absurd hinside (Nat.not_lt.mpr hbeyond)
  · rcases allocateFor_grows hallocate hfull hfound with ⟨hzero, bytes, hlength, hmoved⟩
    subst hmoved
    rcases hrest with ⟨hfailed, _, _⟩ | ⟨_, hcode, hwritten⟩
    · exact absurd hzero hfailed
    · rcases hpromise hcode with ⟨hroomy, hinside⟩
      have hbefore := hwritten.roomy rfl hroomy
      refine h.set_fits hidx (hlength ▸ hbefore.room) hbefore.elements_le ?_
      rcases hwritten with ⟨_, _, _, _, rfl⟩
      exact hinside

/-- A success that keeps its promise has not obtained a block for a byte count
that has wrapped. -/
theorem Sized.noWrap (h : Sized array block) (hvalid : request.Valid array) (hadds : request.Adds)
    (happly : request.apply array = some (answer, array'))
    (hpromise : request.KeepsPromise array array' (blockAfter array' block) answer) :
    request.NoWrap array := by
  intro hfound hallocates
  cases request with
  | insert element room =>
      rcases Option.bind_eq_some_iff.mp happly with ⟨⟨r, after⟩, hinsert, hanswer⟩
      cases hanswer
      exact h.insert_fits hinsert hallocates hfound fun hcode =>
        hpromise (congrArg Answer.code hcode)
  | alloc room =>
      rcases Option.bind_eq_some_iff.mp happly with ⟨⟨place, after⟩, halloc, hanswer⟩
      cases hanswer
      refine h.place_fits halloc hallocates hfound fun hplace => ?_
      rcases Option.isSome_iff_exists.mp hplace with ⟨offset, hoffset⟩
      exact hpromise offset (congrArg Answer.place hoffset)
  | set element idx room =>
      rcases Option.bind_eq_some_iff.mp happly with ⟨⟨r, after⟩, hset, hanswer⟩
      cases hanswer
      exact h.index_fits hset hvalid hallocates.left hallocates.right hfound fun hcode =>
        hpromise (congrArg Answer.code hcode)
  | pop => exact hadds.elim
  | delete idx => exact hadds.elim
  | free room => exact hadds.elim
  | store offset bytes => exact hadds.elim

/-- After any calls for which no byte count has wrapped, a success of a call that
adds elements leaves an array with room in its block, as it should, exactly if no
byte count has wrapped for that call either. -/
theorem array_success_has_room_iff (hreached : Reached array block)
    (hvalid : request.Valid array) (hadds : request.Adds)
    (happly : request.apply array = some (answer, array')) :
    request.KeepsPromise array array' (blockAfter array' block) answer <->
      request.NoWrap array := by
  constructor
  · exact hreached.sized.noWrap hvalid hadds happly
  · intro hfits
    exact (hreached.sized.step hvalid hfits happly).right

def oneTaken (increment size : Nat) : MyArray where
  buffer := some (readBytes (fun _ => 9) size)
  inPlace := false
  elements := 1
  number := 1
  increment := increment
  size := size

theorem oneTaken_reached {increment size : Nat} (hincrement : increment < 2 ^ 32)
    (hincrement_pos : 0 < increment) (hsize : size < 2 ^ 32) (hsize_pos : 0 < size) :
    Reached (oneTaken increment size) size := by
  have hinit : myArrayInit none false 1 increment size (some fun _ => 9) =
      some { oneTaken increment size with elements := 0 } := by
    rw [myArrayInit, if_neg fun h => Nat.ne_of_gt hsize_pos h.right]
    simp only [Nat.ne_of_gt hincrement_pos, if_false, Nat.one_ne_zero, myMalloc, Option.map_some,
      Nat.mul_one, uint_of_lt hsize, oneTaken]
  have hfits : 1 * size < 2 ^ 32 := by omega
  have hempty := Reached.init (by decide) hincrement (fun _ h => by cases h) hinit hsize_pos
    hincrement_pos fun _ => hfits
  have hvalid : (Request.alloc none).Valid { oneTaken increment size with elements := 0 } := trivial
  have hnoWrap : (Request.alloc none).NoWrap { oneTaken increment size with elements := 0 } :=
    fun hfound => absurd hfound Bool.false_ne_true
  have happly : (Request.alloc none).apply { oneTaken increment size with elements := 0 } =
      some (.place (some 0), oneTaken increment size) := by
    simp only [Request.apply, myArrayAlloc, oneTaken, takeSlot, Nat.zero_ne_one, if_false,
      Nat.zero_mul]
    rfl
  have htaken := hempty.step hvalid hnoWrap happly
  have hblock : forall before, blockAfter (oneTaken increment size) before = size :=
    fun _ => length_readBytes _ size
  rwa [hblock] at htaken

theorem array_success_has_room_iff_growth : exists array' block,
    Reached (oneTaken 1 1) block ∧
      (Request.alloc (some fun _ => 9)).apply (oneTaken 1 1) =
        some (.place (some 1), array') ∧
      Roomy (oneTaken 1 1) array' (blockAfter array' block) := by
  have hreached : Reached (oneTaken 1 1) 1 :=
    oneTaken_reached (by decide) (by decide) (by decide) (by decide)
  have happly : exists array', (Request.alloc (some fun _ => 9)).apply (oneTaken 1 1) =
      some (.place (some 1), array') := ⟨_, rfl⟩
  rcases happly with ⟨array', happly⟩
  have hvalid : (Request.alloc (some fun _ => 9)).Valid (oneTaken 1 1) := trivial
  have hadds : (Request.alloc (some fun _ => 9)).Adds := trivial
  have hnoWrap : (Request.alloc (some fun _ => 9)).NoWrap (oneTaken 1 1) := by
    intro _ _
    show (1 + 1) * 1 < 2 ^ 32
    decide
  have hiff := array_success_has_room_iff hreached hvalid hadds happly
  exact ⟨array', 1, hreached, happly, hiff.mpr hnoWrap 1 rfl⟩

/-- An array of pairs of bytes that grows by half of what can be counted asks for
two bytes. -/
theorem array_success_without_room : exists array' block,
    Reached (oneTaken (2 ^ 31) 2) block ∧
      (Request.alloc (some fun _ => 9)).apply (oneTaken (2 ^ 31) 2) =
        some (.place (some 2), array') ∧
      blockAfter array' block < array'.number * array'.size := by
  have hreached : Reached (oneTaken (2 ^ 31) 2) 2 :=
    oneTaken_reached (by decide) (by decide) (by decide) (by decide)
  exact ⟨_, 2, hreached, rfl, by decide⟩

end Runs

end GrowableArray
end MyLibs
