import MyLibs.GrowableArray.Sizes

/-!
# Calls that find no memory

`my_array_alloc` and `my_array_allocate` look at the pointer they are given
before they store it. `my_array_free` stores it first. No failure can be told from the
`NULL` for a byte count that has wrapped to zero, which has freed the buffer.
-/

namespace MyLibs
namespace GrowableArray

open Foundation

namespace Request

def Refused (answer : Answer) : Request -> Prop
  | .insert _ _ => answer = .code 1
  | .alloc _ => answer = .place none
  | .set _ _ _ => answer = .code 1
  | _ => True

/-- The call returns, reports its failure, and has changed neither the buffer nor
what is in it nor any count, so that elements are read as before. -/
def LeavesIntact (array : MyArray) (request : Request) : Prop :=
  exists answer array', request.apply array = some (answer, array') ∧ request.Refused answer ∧
    array'.buffer = array.buffer ∧ array'.elements = array.elements ∧
    array'.number = array.number ∧ array' = array ∧
    forall idx, myArrayGet array' idx = myArrayGet array idx

def Frees : Request -> Prop
  | .free _ => True
  | _ => False

def LosesBuffer (array : MyArray) : Request -> Prop
  | .insert _ _ | .alloc _ =>
      array.LosesBuffer (uint (uint (array.number + array.increment) * array.size))
  | .set _ idx _ => array.LosesBuffer (uint (roundUp array idx * array.size))
  | _ => False

theorem LeavesIntact.of_same {array : MyArray} {request : Request} {answer : Answer}
    (happly : request.apply array = some (answer, array)) (hrefused : request.Refused answer) :
    request.LeavesIntact array :=
  ⟨answer, array, happly, hrefused, rfl, rfl, rfl, rfl, fun _ => rfl⟩

end Request

variable {array : MyArray} {block idx : Nat} {request : Request}

/-!
## Growing
-/

theorem myArrayAlloc_failed (hfull : array.elements = array.number) :
    ((Request.alloc none).LosesBuffer array -> myArrayAlloc array none = none) ∧
      (¬ (Request.alloc none).LosesBuffer array ->
        myArrayAlloc array none = some (none, array)) := by
  rw [myArrayAlloc, if_pos hfull]
  constructor
  · intro hlost
    have hnew : newBuffer array (uint (uint (array.number + array.increment) * array.size))
        none = none := newBuffer_lost hlost
    simp only [hnew]
    rfl
  · intro hkept
    have hnew : newBuffer array (uint (uint (array.number + array.increment) * array.size))
        none = some none := newBuffer_none hkept
    simp only [hnew]
    rfl

theorem myArraySet_failed {element : Bytes} (hincrement : 0 < array.increment)
    (hallocates : (Request.set element idx none).Allocates array) :
    ((Request.set element idx none).LosesBuffer array ->
        myArraySet array element idx none = none) ∧
      (¬ (Request.set element idx none).LosesBuffer array ->
        myArraySet array element idx none = some (1, array)) := by
  rcases hallocates with ⟨hbeyond, hfull⟩
  rw [myArraySet, if_pos hbeyond, allocateFor, if_pos hfull, myArrayAllocate, if_pos hfull,
    if_neg (Nat.ne_of_gt hincrement)]
  constructor
  · intro hlost
    have hnew : newBuffer array (uint (uint (uint (idx + array.increment) /
        array.increment * array.increment) * array.size)) none = none := newBuffer_lost hlost
    simp only [hnew]
    rfl
  · intro hkept
    have hnew : newBuffer array (uint (uint (uint (idx + array.increment) /
        array.increment * array.increment) * array.size)) none = some none :=
      newBuffer_none hkept
    simp only [hnew]
    rfl

/-- What a call that asks for a larger buffer leads to without room for one. -/
theorem failed_cases {request : Request} (hfailed : request.found = none)
    (hincrement : 0 < array.increment) (hallocates : request.Allocates array)
    (hgrows : ¬ request.Frees) :
    (request.LosesBuffer array -> request.apply array = none) ∧
      (¬ request.LosesBuffer array -> exists answer,
        request.apply array = some (answer, array) ∧ request.Refused answer) := by
  cases request with
  | insert element room =>
      cases hfailed
      rcases myArrayAlloc_failed hallocates with ⟨hlost, hkept⟩
      rw [Request.apply, myArrayInsert, insertPlace_eq]
      exact ⟨fun h => by rw [hlost h]; rfl, fun h => ⟨.code 1, by rw [hkept h]; rfl, rfl⟩⟩
  | alloc room =>
      cases hfailed
      rcases myArrayAlloc_failed hallocates with ⟨hlost, hkept⟩
      rw [Request.apply]
      exact ⟨fun h => by rw [hlost h]; rfl, fun h => ⟨.place none, by rw [hkept h]; rfl, rfl⟩⟩
  | set element idx room =>
      cases hfailed
      rcases myArraySet_failed hincrement hallocates with ⟨hlost, hkept⟩
      rw [Request.apply]
      exact ⟨fun h => by rw [hlost h]; rfl, fun h => ⟨.code 1, by rw [hkept h]; rfl, rfl⟩⟩
  | free room => exact absurd trivial hgrows
  | pop => exact hallocates.elim
  | delete idx => exact hallocates.elim
  | store offset bytes => exact hallocates.elim

theorem Sized.not_losesBuffer_alloc (h : Sized array block)
    (hbytes : (array.number + array.increment) * array.size < 2 ^ 32) :
    ¬ (Request.alloc none).LosesBuffer array := by
  intro hlost
  have hzero := hlost.right.left
  have hgrown : 0 < (array.number + array.increment) * array.size :=
    Nat.mul_pos (Nat.add_pos_left h.number_pos _) h.size_pos
  have hsum := Nat.lt_of_le_of_lt (Nat.le_mul_of_pos_right _ h.size_pos) hbytes
  rw [uint_of_lt hsum, uint_of_lt hbytes] at hzero
  omega

/-- A byte count that has not wrapped is not zero. -/
theorem Sized.not_losesBuffer (h : Sized array block) {request : Request}
    (hfits : request.Fits array) : ¬ request.LosesBuffer array := by
  cases request with
  | insert | alloc => exact h.not_losesBuffer_alloc hfits
  | set element idx room =>
      intro hlost
      have hzero := hlost.right.left
      rcases roundUp_of_fits hfits h.size_pos with ⟨hnext, hbytes⟩
      have hround := lt_roundUp h.increment_pos idx
      rw [← hnext] at hround
      have hpos := Nat.mul_pos (Nat.zero_lt_of_lt hround) h.size_pos
      rw [uint_of_lt hbytes] at hzero
      omega
  | pop | delete | free | store => exact id

/-!
## Shrinking
-/

theorem myArrayFree_failed (hallocates : (Request.free none).Allocates array) :
    myArrayFree array none =
      { array with buffer := none, number := max array.elements 1 } := by
  rcases myArrayFree_cases array none with ⟨hnot, _⟩ | ⟨_, hfreed⟩
  · exact absurd hallocates hnot
  · exact hfreed

theorem myArrayGet_lost (hlost : array.buffer = none) (hidx : idx < array.elements) :
    myArrayGet array idx = none := by
  rw [myArrayGet, if_neg (Nat.not_le.mpr hidx), hlost]
  rfl

theorem free_not_intact (hallocates : (Request.free none).Allocates array) :
    ¬ (Request.free none).LeavesIntact array := by
  intro hintact
  rcases hintact with ⟨answer, array', happly, _, hbuffer, _⟩
  rw [Request.apply, myArrayFree_failed hallocates] at happly
  cases happly
  have hsome := hallocates.right.left
  rw [← hbuffer] at hsome
  exact Bool.false_ne_true hsome

/-- After any calls, a call whose allocation fails leaves the array as it is exactly if
it is not `my_array_free` and has not asked for no bytes, as it only can if its byte
count has wrapped. -/
theorem array_failed_allocation_intact_iff (hreached : Reached array block)
    (hallocates : request.Allocates array) (hfailed : request.found = none) :
    (request.LeavesIntact array <-> ¬ request.Frees ∧ ¬ request.LosesBuffer array) ∧
      (request.Fits array -> ¬ request.LosesBuffer array) := by
  refine ⟨?_, hreached.sized.not_losesBuffer⟩
  by_cases hfrees : request.Frees
  · cases request with
    | free room =>
        cases hfailed
        exact ⟨fun hintact => absurd hintact (free_not_intact hallocates),
          fun hnot => absurd trivial hnot.left⟩
    | insert | alloc | set | pop | delete | store => exact hfrees.elim
  · rcases failed_cases hfailed hreached.sized.increment_pos hallocates hfrees with
      ⟨hlost, hkept⟩
    constructor
    · intro hintact
      refine ⟨hfrees, fun hloses => ?_⟩
      rcases hintact with ⟨answer, array', happly, _⟩
      rw [hlost hloses] at happly
      cases happly
    · intro hboth
      rcases hkept hboth.right with ⟨answer, happly, hrefused⟩
      exact .of_same happly hrefused

theorem array_failed_allocation_intact_iff_insert :
    (Request.insert (fun _ => 5) none).LeavesIntact (oneTaken 1 1) := by
  have hreached : Reached (oneTaken 1 1) 1 :=
    oneTaken_reached (by decide) (by decide) (by decide) (by decide)
  have hallocates : (Request.insert (fun _ => 5) none).Allocates (oneTaken 1 1) := rfl
  rcases array_failed_allocation_intact_iff hreached hallocates rfl with ⟨hintact, hfits⟩
  exact hintact.mpr ⟨id, hfits (by decide : (1 + 1) * 1 < 2 ^ 32)⟩

def oneOfTwo : MyArray where
  buffer := some [5, 9]
  inPlace := false
  elements := 1
  number := 2
  increment := 1
  size := 1

theorem oneOfTwo_reached : Reached oneOfTwo 2 := by
  have hinit : myArrayInit none false 2 1 1 (some fun _ => 9) =
      some { oneOfTwo with buffer := some [9, 9], elements := 0 } := rfl
  have hempty := Reached.init (by decide) (by decide) (fun _ h => by cases h) hinit (by decide)
    (by decide) fun _ => by decide
  have hnoWrap : (Request.insert (fun _ => 5) none).NoWrap
      { oneOfTwo with buffer := some [9, 9], elements := 0 } :=
    fun hfound => absurd hfound Bool.false_ne_true
  have hvalid : (Request.insert (fun _ => 5) none).Valid
      { oneOfTwo with buffer := some [9, 9], elements := 0 } := trivial
  exact hempty.step hvalid hnoWrap rfl

/-- The element is there before `my_array_free`, and there is no buffer after. -/
theorem array_free_loses_elements :
    Reached oneOfTwo 2 ∧ (Request.free none).Allocates oneOfTwo ∧
      myArrayGet oneOfTwo 0 = some (0, [5]) ∧
      (myArrayFree oneOfTwo none).buffer = none ∧ (myArrayFree oneOfTwo none).elements = 1 ∧
      (myArrayFree oneOfTwo none).number = 1 ∧
      myArrayGet (myArrayFree oneOfTwo none) 0 = none ∧
      ¬ (Request.free none).LeavesIntact oneOfTwo := by
  have hallocates : (Request.free none).Allocates oneOfTwo := ⟨rfl, rfl, by decide⟩
  have hfreed := myArrayFree_failed hallocates
  rw [hfreed]
  exact ⟨oneOfTwo_reached, hallocates, rfl, rfl, rfl, rfl, myArrayGet_lost rfl (by decide),
    free_not_intact hallocates⟩

end GrowableArray
end MyLibs
