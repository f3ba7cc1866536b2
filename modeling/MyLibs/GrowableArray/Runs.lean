import MyLibs.GrowableArray.Operations

/-!
# The array as a list

What each call does to the list of elements and what it returns, for calls whose
reallocations succeed and whose sums and byte counts fit an `unsigned int`.
-/

namespace MyLibs
namespace GrowableArray

open Foundation

variable {array : MyArray} {xs : List (List UInt8)} {idx : Nat}

/-!
## More elements
-/

theorem myArrayAlloc_spec (h : Holds array xs) (garbage : Bytes)
    (hbytes : array.elements = array.number ->
      (array.number + array.increment) * array.size < 2 ^ 32) :
    exists roomy, myArrayAlloc array (some garbage) = some (takeSlot roomy) ∧
      Holds roomy xs ∧ xs.length < roomy.number ∧ roomy.size = array.size := by
  rw [myArrayAlloc]
  by_cases hfull : array.elements = array.number
  · rw [if_pos hfull]
    have hincrement := h.increment_pos
    have hmul := hbytes hfull
    have hsum : uint (array.number + array.increment) = array.number + array.increment :=
      uint_of_lt (Nat.lt_of_le_of_lt (Nat.le_mul_of_pos_right _ h.size_pos) hmul)
    have hnumber : array.elements <= array.number + array.increment := by omega
    rcases newBuffer_spec h garbage hnumber with ⟨spare, hnew, hlength⟩
    refine ⟨{ array with
      buffer := some (xs.flatten ++ spare)
      inPlace := false
      number := array.number + array.increment }, ?_, ?_, ?_, rfl⟩
    · simp only [hsum, uint_of_lt hmul, hnew, Option.bind_eq_bind, Option.bind_some]
    · exact h.rebuffer false hnumber hmul hlength
    · show xs.length < array.number + array.increment
      rw [← h.elements_eq]
      omega
  · rw [if_neg hfull]
    have hroom : xs.length < array.number := by
      rw [← h.elements_eq]
      exact Nat.lt_of_le_of_ne h.elements_le hfull
    exact ⟨array, rfl, h, hroom, rfl⟩

theorem takeSlot_eq (h : Holds array xs) (hroom : xs.length < array.number) :
    takeSlot array = (some (xs.length * array.size),
      { array with elements := xs.length + 1 }) := by
  have hlt := h.number_lt
  rw [takeSlot, h.elements_eq, h.offset (Nat.le_of_lt hroom), uint_of_lt (by omega)]

theorem write_slot (h : Holds array xs) (hroom : xs.length < array.number)
    {x : List UInt8} (hx : x.length = array.size) :
    exists array', ({ array with elements := xs.length + 1 } : MyArray).write
        (xs.length * array.size) x = some array' ∧
      Holds array' (xs ++ [x]) ∧ array'.size = array.size := by
  rcases write_behind h (Pieces.singleton hx) hroom with ⟨buffer, hholds, hwrite⟩
  have hslot := hwrite (xs.length + 1)
  rw [h.offset (Nat.le_of_lt hroom), List.flatten_singleton] at hslot
  exact ⟨_, hslot, hholds, rfl⟩

theorem myArrayInsert_spec (h : Holds array xs) (element garbage : Bytes)
    (hbytes : array.elements = array.number ->
      (array.number + array.increment) * array.size < 2 ^ 32) :
    exists array', myArrayInsert array element (some garbage) = some (0, array') ∧
      Holds array' (xs ++ [readBytes element array.size]) ∧ array'.size = array.size := by
  have hplace : exists roomy, insertPlace array (some garbage) = some (takeSlot roomy) ∧
      Holds roomy xs ∧ xs.length < roomy.number ∧ roomy.size = array.size := by
    rw [insertPlace]
    by_cases hfull : array.elements = array.number
    · rw [if_pos hfull]
      exact myArrayAlloc_spec h garbage hbytes
    · rw [if_neg hfull]
      have hroom : xs.length < array.number := by
        rw [← h.elements_eq]
        exact Nat.lt_of_le_of_ne h.elements_le hfull
      exact ⟨array, rfl, h, hroom, rfl⟩
  rcases hplace with ⟨roomy, htake, hroomy, hroom, hsize⟩
  rcases write_slot hroomy hroom (length_readBytes element roomy.size) with
    ⟨array', hwrite, hholds, hsize'⟩
  refine ⟨array', ?_, hsize ▸ hholds, hsize'.trans hsize⟩
  rw [myArrayInsert, htake, takeSlot_eq hroomy hroom]
  simp only [Option.bind_eq_bind, Option.bind_some, hwrite]

theorem lt_roundUp {increment : Nat} (hpos : 0 < increment) (idx : Nat) :
    idx < (idx + increment) / increment * increment := by
  have hmod := Nat.mod_lt idx hpos
  have hdiv := Nat.div_add_mod idx increment
  rw [Nat.add_div_right idx hpos, Nat.succ_mul, Nat.mul_comm]
  omega

def RoundUpFits (array : MyArray) (idx : Nat) : Prop :=
  idx + array.increment < 2 ^ 32 ∧
    (idx + array.increment) / array.increment * array.increment * array.size < 2 ^ 32

theorem allocateFor_spec (h : Holds array xs) (garbage : Bytes)
    (hidx : array.elements <= idx) (hfits : array.number <= idx -> RoundUpFits array idx) :
    exists roomy, allocateFor array idx (some garbage) = some (0, roomy) ∧
      Holds roomy xs ∧ idx < roomy.number ∧ roomy.size = array.size := by
  rw [allocateFor]
  by_cases hfull : array.number <= idx
  · rcases hfits hfull with ⟨hsum, hmul⟩
    have hround := lt_roundUp h.increment_pos idx
    have hle := Nat.div_mul_le_self (idx + array.increment) array.increment
    have hsize : uint (uint (idx + array.increment) / array.increment * array.increment) =
        (idx + array.increment) / array.increment * array.increment := by
      rw [uint_of_lt hsum, uint_of_lt (by omega)]
    have hnumber : array.elements <=
        (idx + array.increment) / array.increment * array.increment := by omega
    rcases newBuffer_spec h garbage hnumber with ⟨spare, hnew, hlength⟩
    refine ⟨{ array with
      buffer := some (xs.flatten ++ spare)
      inPlace := false
      number := (idx + array.increment) / array.increment * array.increment },
      ?_, h.rebuffer false hnumber hmul hlength, hround, rfl⟩
    rw [if_pos hfull, myArrayAllocate, if_pos hfull, if_neg (Nat.ne_of_gt h.increment_pos)]
    simp only [hsize, uint_of_lt hmul, hnew, Option.bind_eq_bind, Option.bind_some]
  · rw [if_neg hfull]
    exact ⟨array, rfl, h, Nat.lt_of_not_le hfull, rfl⟩

def zeros (size : Nat) : List UInt8 :=
  List.replicate size 0

theorem length_zeros (size : Nat) : (zeros size).length = size :=
  List.length_replicate

/-- The list with an element put at an index, after zero elements if the index
is past the end. -/
def putAt (size : Nat) (xs : List (List UInt8)) (idx : Nat) (x : List UInt8) :
    List (List UInt8) :=
  if idx < xs.length then xs.set idx x
  else xs ++ List.replicate (idx - xs.length) (zeros size) ++ [x]

theorem myArraySet_inside {first rest : List (List UInt8)} {x : List UInt8}
    (h : Holds array (first ++ x :: rest)) (element garbage : Bytes) :
    exists array', myArraySet array element first.length (some garbage) = some (0, array') ∧
      Holds array' (first ++ readBytes element array.size :: rest) ∧
      array'.size = array.size := by
  have hlt : ¬ array.elements <= first.length := by
    rw [h.elements_eq, List.length_append, List.length_cons]
    omega
  rcases write_at h (length_readBytes element array.size) with ⟨buffer, hwrite, hholds⟩
  refine ⟨_, ?_, hholds, rfl⟩
  rw [myArraySet, if_neg hlt, hwrite]
  rfl

/-- Everything between the last element and the index is cleared. -/
theorem write_gap (h : Holds array xs) (hidx : xs.length <= idx) (hroom : idx < array.number) :
    exists buffer, array.write (uint (array.elements * array.size))
        (List.replicate (uint ((idx - array.elements) * array.size)) 0) =
          some { array with buffer := some buffer } ∧
      Holds { array with buffer := some buffer, elements := idx }
        (xs ++ List.replicate (idx - xs.length) (zeros array.size)) := by
  have hzeros : Pieces array.size (List.replicate (idx - xs.length) (zeros array.size)) :=
    Pieces.replicate _ (length_zeros array.size)
  have hcount : xs.length + (List.replicate (idx - xs.length) (zeros array.size)).length = idx := by
    rw [List.length_replicate]
    omega
  have hfits : xs.length + (List.replicate (idx - xs.length) (zeros array.size)).length <=
      array.number := by
    rw [hcount]
    exact Nat.le_of_lt hroom
  rcases write_behind h hzeros hfits with ⟨buffer, hholds, hwrite⟩
  have hflatten : (List.replicate (idx - xs.length) (zeros array.size)).flatten =
      List.replicate ((idx - xs.length) * array.size) (0 : UInt8) :=
    List.flatten_replicate_replicate
  rw [hcount] at hholds
  refine ⟨buffer, ?_, hholds⟩
  have hsame := hwrite array.elements
  rw [hflatten, ← h.elements_eq] at hsame
  rw [h.offset (show idx - array.elements <= array.number by omega)]
  exact hsame

theorem myArraySet_beyond (h : Holds array xs) (element garbage : Bytes) (hidx : xs.length <= idx)
    (hfits : array.number <= idx -> RoundUpFits array idx) :
    exists array', myArraySet array element idx (some garbage) = some (0, array') ∧
      Holds array' (xs ++ List.replicate (idx - xs.length) (zeros array.size) ++
        [readBytes element array.size]) ∧
      array'.size = array.size := by
  have hle : array.elements <= idx := h.elements_eq ▸ hidx
  rcases allocateFor_spec h garbage hle hfits with
    ⟨roomy, hallocate, hroomy, hroom, hsize⟩
  have hlt := hroomy.number_lt
  rcases write_gap hroomy hidx hroom with ⟨buffer, hgap, hcleared⟩
  have hlength : (xs ++ List.replicate (idx - xs.length) (zeros roomy.size)).length = idx := by
    rw [List.length_append, List.length_replicate]
    omega
  have hbelow : (xs ++ List.replicate (idx - xs.length) (zeros roomy.size)).length <
      roomy.number := by
    rw [hlength]
    exact hroom
  rcases write_slot hcleared hbelow (length_readBytes element roomy.size) with
    ⟨array', hwrite, hholds, hsize'⟩
  rw [hlength] at hwrite
  refine ⟨array', ?_, hsize ▸ hholds, hsize'.trans hsize⟩
  have hnext : uint (idx + 1) = idx + 1 := uint_of_lt (by omega)
  rw [myArraySet, if_pos hle, hallocate]
  simp only [Option.bind_eq_bind, Option.bind_some, ne_eq, not_true_eq_false, if_false,
    hgap, hroomy.offset (Nat.le_of_lt hroom), hnext]
  exact congrArg (fun result => result.bind fun array => some (0, array)) hwrite

theorem exists_split {α : Type} {xs : List α} {idx : Nat} (hidx : idx < xs.length) :
    exists first x rest, xs = first ++ x :: rest ∧ first.length = idx := by
  refine ⟨xs.take idx, xs[idx], xs.drop (idx + 1), ?_, ?_⟩
  · rw [List.getElem_cons_drop, List.take_append_drop]
  · exact List.length_take_of_le (Nat.le_of_lt hidx)

theorem myArraySet_spec (h : Holds array xs) (element garbage : Bytes)
    (hfits : array.number <= idx -> RoundUpFits array idx) :
    exists array', myArraySet array element idx (some garbage) = some (0, array') ∧
      Holds array' (putAt array.size xs idx (readBytes element array.size)) ∧
      array'.size = array.size := by
  rw [putAt]
  by_cases hidx : idx < xs.length
  · rw [if_pos hidx]
    rcases exists_split hidx with ⟨first, x, rest, hsplit, hlength⟩
    subst hsplit hlength
    rw [List.set_append_right _ _ (Nat.le_refl _), Nat.sub_self, List.set_cons_zero]
    exact myArraySet_inside h element garbage
  · rw [if_neg hidx]
    exact myArraySet_beyond h element garbage (Nat.le_of_not_lt hidx) hfits

/-!
## Fewer elements, and reading
-/

theorem myArrayPop_spec (h : Holds array xs) : Holds (myArrayPop array).2 xs.dropLast ∧
    (myArrayPop array).2.size = array.size ∧
    (myArrayPop array).1 =
      if xs = [] then none else some (xs.dropLast.length * array.size) := by
  rcases List.eq_nil_or_concat xs with hempty | ⟨before, last, hsplit⟩
  · subst hempty
    have hzero : array.elements = 0 := h.elements_eq
    rw [myArrayPop, if_neg (not_not_intro hzero)]
    exact ⟨h, rfl, rfl⟩
  · rw [List.concat_eq_append] at hsplit
    subst hsplit
    have helements : array.elements = before.length + 1 := by
      rw [h.elements_eq, List.length_append]
      rfl
    have hnumber := h.elements_le
    rcases Pieces.append_iff.mp h.pieces with ⟨hbefore, _⟩
    rcases h.buffer with ⟨spare, hbuffer, hlength⟩
    rw [myArrayPop, if_pos (by omega), List.dropLast_concat, helements, Nat.add_sub_cancel,
      if_neg (List.concat_ne_nil last before), h.offset (by omega)]
    refine ⟨?_, rfl, rfl⟩
    exact {
      size_pos := h.size_pos
      increment_pos := h.increment_pos
      elements_eq := rfl
      elements_le := by
        show before.length <= array.number
        omega
      pieces := hbefore
      buffer := by
        refine ⟨last ++ spare, ?_, ?_⟩
        · show array.buffer = _
          rw [hbuffer, List.flatten_concat, List.append_assoc]
        · show _ = array.number * array.size
          rw [← hlength, List.flatten_concat, List.append_assoc]
      bytes_lt := h.bytes_lt }

theorem myArrayGet_spec (h : Holds array xs) (idx : Nat) : myArrayGet array idx =
    some (xs[idx]?.elim (1, zeros array.size) fun x => (0, x)) := by
  rw [myArrayGet]
  by_cases hidx : array.elements <= idx
  · rw [if_pos hidx, List.getElem?_eq_none (h.elements_eq ▸ hidx)]
    rfl
  · rw [if_neg hidx]
    have hlt : idx < xs.length := by
      rw [← h.elements_eq]
      omega
    have hnumber := h.elements_le
    rcases h.buffer with ⟨spare, hbuffer, _⟩
    rcases exists_split hlt with ⟨first, x, rest, hsplit, hlength⟩
    have hpieces := h.pieces
    rw [hsplit] at hpieces
    rcases Pieces.append_iff.mp hpieces with ⟨hfirst, hlast⟩
    have hx : x.length = array.size := hlast x List.mem_cons_self
    have hoffset : first.flatten.length = idx * array.size := by
      rw [hfirst.length_flatten, hlength]
    have hcells : xs.flatten ++ spare = first.flatten ++ x ++ (rest.flatten ++ spare) := by
      simp only [hsplit, List.flatten_append, List.flatten_cons, List.append_assoc]
    have hslice := slice_append first.flatten x (rest.flatten ++ spare)
    have hget : xs[idx]? = some x := by
      rw [hsplit, ← hlength, List.getElem?_append_right (Nat.le_refl _), Nat.sub_self,
        List.getElem?_cons_zero]
    rw [← hcells, hoffset, hx] at hslice
    rw [h.offset (by omega), hbuffer, hget]
    simp only [Option.bind_eq_bind, Option.bind_some, hslice, Option.elim_some]

/-!
## Calls
-/

inductive Call where
  | insert (element garbage : Bytes)
  /-- `my_array_alloc`, and the caller writes the element. -/
  | alloc (element garbage : Bytes)
  | pop
  | set (element : Bytes) (idx : Nat) (garbage : Bytes)
  | get (idx : Nat)
  | delete (idx : Nat)
  | free (garbage : Bytes)

inductive Answer where
  | place (offset : Option Nat)
  | code (r : Nat)
  | read (r : Nat) (element : List UInt8)
  | nothing
deriving DecidableEq

def Call.apply (array : MyArray) : Call -> Option (Answer × MyArray)
  | .insert element garbage => do
      let (r, array) <- myArrayInsert array element (some garbage)
      some (.code r, array)
  | .alloc element garbage => do
      let (place, array) <- myArrayAlloc array (some garbage)
      match place with
      | none => some (.place none, array)
      | some offset => do
          let array <- array.write offset (readBytes element array.size)
          some (.place (some offset), array)
  | .pop =>
      let (place, array) := myArrayPop array
      some (.place place, array)
  | .set element idx garbage => do
      let (r, array) <- myArraySet array element idx (some garbage)
      some (.code r, array)
  | .get idx => do
      let (r, element) <- myArrayGet array idx
      some (.read r element, array)
  | .delete idx => do
      let array <- myArrayDelete array idx
      some (.nothing, array)
  | .free garbage => some (.nothing, myArrayFree array (some garbage))

def Call.Allowed (array : MyArray) : Call -> Prop
  | .insert _ _ | .alloc _ _ => array.elements = array.number ->
      (array.number + array.increment) * array.size < 2 ^ 32
  | .set _ idx _ => array.number <= idx -> RoundUpFits array idx
  | .delete idx => idx < array.elements
  | .free _ => max array.elements 1 * array.size < 2 ^ 32
  | .pop | .get _ => True

def Call.onList (size : Nat) (xs : List (List UInt8)) : Call -> List (List UInt8)
  | .insert element _ | .alloc element _ => xs ++ [readBytes element size]
  | .pop => xs.dropLast
  | .set element idx _ => putAt size xs idx (readBytes element size)
  | .get _ => xs
  | .delete idx => xs.eraseIdx idx
  | .free _ => xs

def Call.answer (size : Nat) (xs : List (List UInt8)) : Call -> Answer
  | .insert _ _ | .set _ _ _ => .code 0
  | .alloc _ _ => .place (some (xs.length * size))
  | .pop => .place (if xs = [] then none else some (xs.dropLast.length * size))
  | .get idx => xs[idx]?.elim (.read 1 (zeros size)) (.read 0)
  | .delete _ | .free _ => .nothing

/-- A call does to the array what it does to the list. -/
theorem Holds.step (h : Holds array xs) {call : Call} (hallowed : call.Allowed array) :
    exists array', call.apply array = some (call.answer array.size xs, array') ∧
      Holds array' (call.onList array.size xs) ∧ array'.size = array.size := by
  cases call with
  | insert element garbage =>
      rcases myArrayInsert_spec h element garbage hallowed with ⟨array', hinsert, hholds⟩
      exact ⟨array', by rw [Call.apply, hinsert]; rfl, hholds⟩
  | alloc element garbage =>
      rcases myArrayAlloc_spec h garbage hallowed with ⟨roomy, halloc, hroomy, hroom, hsize⟩
      rcases write_slot hroomy hroom (length_readBytes element roomy.size) with
        ⟨array', hwrite, hholds, hsize'⟩
      refine ⟨array', ?_, hsize ▸ hholds, hsize'.trans hsize⟩
      rw [Call.apply, halloc, takeSlot_eq hroomy hroom, Call.answer, ← hsize]
      simp only [Option.bind_eq_bind, Option.bind_some, hwrite]
  | pop =>
      rcases myArrayPop_spec h with ⟨hholds, hsize, hplace⟩
      exact ⟨(myArrayPop array).2, by rw [Call.answer, ← hplace]; rfl, hholds, hsize⟩
  | set element idx garbage =>
      rcases myArraySet_spec h element garbage hallowed with ⟨array', hset, hholds⟩
      exact ⟨array', by rw [Call.apply, hset]; rfl, hholds⟩
  | get idx =>
      refine ⟨array, ?_, h, rfl⟩
      rw [Call.apply, myArrayGet_spec h, Call.answer]
      cases xs[idx]? with
      | none => rfl
      | some x => rfl
  | delete idx =>
      have hlt : idx < xs.length := by
        rw [← h.elements_eq]
        exact hallowed
      rcases exists_split hlt with ⟨first, x, rest, hsplit, hlength⟩
      subst hsplit hlength
      rcases myArrayDelete_spec h with ⟨array', hdelete, hholds⟩
      refine ⟨array', by rw [Call.apply, hdelete]; rfl, ?_⟩
      rw [Call.onList, List.eraseIdx_append_of_length_le (Nat.le_refl _), Nat.sub_self,
        List.eraseIdx_cons_zero]
      exact hholds
  | free garbage =>
      exact ⟨myArrayFree array (some garbage), rfl, myArrayFree_spec h garbage hallowed⟩

/-!
## Whole runs
-/

inductive Run (start : MyArray) : List Call -> MyArray -> Prop
  | nil : Run start [] start
  | snoc {calls : List Call} {array array' : MyArray} {call : Call} {answer : Answer} :
      Run start calls array -> call.Allowed array ->
      call.apply array = some (answer, array') -> Run start (calls ++ [call]) array'

def elementsAfter (size : Nat) (xs : List (List UInt8)) (calls : List Call) :
    List (List UInt8) :=
  calls.foldl (Call.onList size) xs

variable {start : MyArray} {calls : List Call}

theorem Run.holds (h : Holds start xs) (hrun : Run start calls array) :
    Holds array (elementsAfter start.size xs calls) ∧ array.size = start.size := by
  induction hrun with
  | nil => exact ⟨h, rfl⟩
  | snoc _ hallowed hcall ih =>
      rcases ih with ⟨hholds, hsize⟩
      rcases hholds.step hallowed with ⟨array', hcall', hholds', hsize'⟩
      rw [hcall] at hcall'
      cases hcall'
      rw [elementsAfter, List.foldl_append]
      rw [hsize] at hholds' hsize'
      exact ⟨hholds', hsize'⟩

def storedIncrement (number increment size : Nat) : Nat :=
  if increment = 0 then
    if ARRAY_INIT_NUMBER < number ∧
        uint (number * 2) < max ((ARRAT_BLOCK_SIZE - MALLOC_OVERHEAD) / size) ARRAY_INIT_INCREMENT
    then uint (number * 2)
    else max ((ARRAT_BLOCK_SIZE - MALLOC_OVERHEAD) / size) ARRAY_INIT_INCREMENT
  else increment

theorem myArrayInit_cases {buffer : Option (List UInt8)} {inPlace : Bool}
    {number increment size : Nat} {room : Option Bytes}
    (hinit : myArrayInit buffer inPlace number increment size room = some array) :
    array.elements = 0 ∧ array.size = size ∧
      array.increment = storedIncrement number increment size ∧
      array.number = (if number = 0 then array.increment else number) ∧
      exists bytes, array.buffer = some bytes ∧
        ((number ≠ 0 ∧ buffer = some bytes) ∨
          ((number = 0 ∨ buffer = none) ∧ bytes.length = uint (size * array.number))) := by
  rw [myArrayInit] at hinit
  split at hinit
  · cases hinit
  · simp only at hinit
    split at hinit
    · rename_i bytes hbytes
      cases hinit
      split at hbytes
      · cases hbytes
      · rename_i hnumber
        exact ⟨rfl, rfl, rfl, rfl, bytes, rfl, Or.inl ⟨hnumber, hbytes⟩⟩
    · rename_i hnone
      rcases Option.map_eq_some_iff.mp hinit with ⟨bytes, hmalloc, harray⟩
      rcases Option.map_eq_some_iff.mp hmalloc with ⟨garbage, _, hblock⟩
      subst harray
      refine ⟨rfl, rfl, rfl, rfl, bytes, rfl, Or.inr ⟨?_, ?_⟩⟩
      · split at hnone
        · rename_i hzero
          exact Or.inl hzero
        · exact Or.inr hnone
      · rw [← hblock, length_readBytes]

/-- What `my_array_init` returns is an array of no elements. -/
theorem myArrayInit_holds {buffer : Option (List UInt8)} {inPlace : Bool}
    {number increment size : Nat} {room : Option Bytes}
    (hbuffer : forall block, buffer = some block -> block.length = number * size)
    (hinit : myArrayInit buffer inPlace number increment size room = some array)
    (hsize : 0 < array.size) (hincrement : 0 < array.increment)
    (hbytes : array.number * array.size < 2 ^ 32) : Holds array [] := by
  rcases myArrayInit_cases hinit with ⟨hzero, hsame, _, hcount, block, hblock, hwhose⟩
  have hlength : block.length = array.number * array.size := by
    rcases hwhose with ⟨hne, hgiven⟩ | ⟨_, hlength⟩
    · rw [hbuffer block hgiven, hcount, if_neg hne, hsame]
    · rw [hlength, Nat.mul_comm, ← hsame, uint_of_lt hbytes]
  exact {
    size_pos := hsize
    increment_pos := hincrement
    elements_eq := hzero
    elements_le := by
      rw [hzero]
      exact Nat.zero_le _
    pieces := Pieces.nil
    buffer := ⟨block, hblock, hlength⟩
    bytes_lt := hbytes }

/-- The array refines a list: after any calls it holds the elements the calls
describe, below its capacity, and the next call touches no byte outside of the
buffer, returns what the list says and changes it as it says. -/
theorem array_refines_list (h : Holds start xs) (hrun : Run start calls array) :
    Holds array (elementsAfter start.size xs calls) ∧ array.elements <= array.number ∧
      forall call : Call, call.Allowed array ->
        exists array', call.apply array =
            some (call.answer start.size (elementsAfter start.size xs calls), array') ∧
          Holds array' (call.onList start.size (elementsAfter start.size xs calls)) := by
  rcases hrun.holds h with ⟨hholds, hsize⟩
  refine ⟨hholds, hholds.elements_le, fun call hallowed => ?_⟩
  rcases hholds.step hallowed with ⟨array', hcall, hholds', _⟩
  rw [hsize] at hcall hholds'
  exact ⟨array', hcall, hholds'⟩

def twoBytes : MyArray where
  buffer := some [7, 7]
  inPlace := true
  elements := 0
  number := 2
  increment := 3
  size := 1

theorem twoBytes_holds : Holds twoBytes [] where
  size_pos := by decide
  increment_pos := by decide
  elements_eq := rfl
  elements_le := by decide
  pieces := Pieces.nil
  buffer := ⟨[7, 7], rfl, rfl⟩
  bytes_lt := by decide

def shortRun : List Call :=
  [.insert (fun _ => 5) (fun _ => 9), .set (fun _ => 6) 3 (fun _ => 9)]

theorem array_refines_list_shortRun : exists array, Run twoBytes shortRun array ∧
    Holds array [[5], [0], [0], [6]] ∧
    (Call.get 1).apply array = some (.read 0 [0], array) := by
  have hrun : exists array, Run twoBytes shortRun array := by
    show exists array, Run twoBytes
      ([.insert (fun _ => 5) (fun _ => 9)] ++ [.set (fun _ => 6) 3 (fun _ => 9)]) array
    refine ⟨_, Run.snoc (Run.snoc Run.nil ?_ rfl) ?_ rfl⟩
    · intro hfull
      cases hfull
    · intro _
      exact ⟨by decide, by decide⟩
  rcases hrun with ⟨array, hrun⟩
  rcases array_refines_list twoBytes_holds hrun with ⟨hholds, _, hcalls⟩
  have helements : elementsAfter 1 [] shortRun = [[5], [0], [0], [6]] := by decide
  have hsize : twoBytes.size = 1 := rfl
  rw [hsize, helements] at hholds hcalls
  rcases hcalls (.get 1) trivial with ⟨array', hget, _⟩
  have hsame : array' = array := by
    simp only [Call.apply, Option.bind_eq_bind, Option.bind_eq_some_iff] at hget
    rcases hget with ⟨_, _, hpair⟩
    exact (Prod.mk.inj (Option.some.inj hpair)).right.symm
  rw [hsame] at hget
  exact ⟨array, hrun, hholds, hget⟩

end GrowableArray
end MyLibs
