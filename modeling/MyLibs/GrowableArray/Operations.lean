import Mathlib.Tactic.Ring
import MyLibs.GrowableArray.Model

/-!
# The operations on a list of elements

The buffer holds the elements one after another, and has room for `number` of
them.
-/

namespace MyLibs
namespace GrowableArray

open Foundation

structure Holds (array : MyArray) (xs : List (List UInt8)) : Prop where
  size_pos : 0 < array.size
  increment_pos : 0 < array.increment
  elements_eq : array.elements = xs.length
  elements_le : array.elements <= array.number
  pieces : Pieces array.size xs
  buffer : exists spare, array.buffer = some (xs.flatten ++ spare) ∧
    (xs.flatten ++ spare).length = array.number * array.size
  bytes_lt : array.number * array.size < 2 ^ 32

variable {array : MyArray} {xs : List (List UInt8)}

theorem length_readBytes (memory : Bytes) (n : Nat) : (readBytes memory n).length = n := by
  rw [readBytes, List.length_map, List.length_range]

namespace Holds

theorem length_flatten (h : Holds array xs) : xs.flatten.length = array.elements * array.size := by
  rw [h.elements_eq]
  exact h.pieces.length_flatten

theorem offset_le {k : Nat} (hk : k <= array.number) :
    k * array.size <= array.number * array.size :=
  Nat.mul_le_mul_right array.size hk

theorem offset (h : Holds array xs) {k : Nat} (hk : k <= array.number) :
    uint (k * array.size) = k * array.size := by
  apply uint_of_lt
  have hle : k * array.size <= array.number * array.size := Holds.offset_le hk
  have hlt := h.bytes_lt
  omega

theorem number_lt (h : Holds array xs) : array.number < 2 ^ 32 :=
  Nat.lt_of_le_of_lt (Nat.le_mul_of_pos_right array.number h.size_pos) h.bytes_lt

theorem rebuffer (h : Holds array xs) {spare : List UInt8} {number : Nat} (inPlace : Bool)
    (hnumber : array.elements <= number) (hbytes : number * array.size < 2 ^ 32)
    (hlength : (xs.flatten ++ spare).length = number * array.size) :
    Holds { array with
      buffer := some (xs.flatten ++ spare), inPlace := inPlace, number := number } xs where
  size_pos := h.size_pos
  increment_pos := h.increment_pos
  elements_eq := h.elements_eq
  elements_le := hnumber
  pieces := h.pieces
  buffer := ⟨spare, rfl, hlength⟩
  bytes_lt := hbytes

end Holds

/-!
## Growing and shrinking
-/

theorem length_myRealloc (block : Option (List UInt8)) (n : Nat) (garbage : Bytes) :
    exists bytes, myRealloc block n (some garbage) = some bytes ∧ bytes.length = n := by
  refine ⟨_, rfl, ?_⟩
  rw [List.length_append, List.length_take, length_readBytes]
  omega

theorem myRealloc_spec (h : Holds array xs) (garbage : Bytes) {number : Nat}
    (hnumber : array.elements <= number) :
    exists spare, myRealloc array.buffer (number * array.size) (some garbage) =
        some (xs.flatten ++ spare) ∧
      (xs.flatten ++ spare).length = number * array.size := by
  rcases h.buffer with ⟨spare, hbuffer, hlength⟩
  have hfits : xs.flatten.length <= number * array.size := by
    rw [h.length_flatten]
    exact Nat.mul_le_mul_right array.size hnumber
  have htake : (xs.flatten ++ spare).take (number * array.size) = xs.flatten ++
      spare.take (number * array.size - xs.flatten.length) := by
    rw [List.take_append, List.take_of_length_le hfits]
  rcases length_myRealloc array.buffer (number * array.size) garbage with ⟨bytes, hbytes, hnew⟩
  have hfront : bytes = xs.flatten ++ (spare.take (number * array.size - xs.flatten.length) ++
      readBytes garbage (number * array.size - (xs.flatten ++ spare).length)) := by
    rw [← Option.some.injEq, ← hbytes, myRealloc, hbuffer, Option.map_some, Option.getD_some, htake,
      List.append_assoc]
  subst hfront
  exact ⟨_, hbytes, hnew⟩

/-- A larger buffer holds the same elements. -/
theorem newBuffer_spec (h : Holds array xs) (garbage : Bytes) {number : Nat}
    (hnumber : array.elements <= number) :
    exists spare, newBuffer array (number * array.size) (some garbage) =
        some (some (xs.flatten ++ spare)) ∧
      (xs.flatten ++ spare).length = number * array.size := by
  by_cases hplace : array.inPlace = true
  · rcases h.buffer with ⟨old, hbuffer, _⟩
    have hfits : xs.flatten.length <= (readBytes garbage (number * array.size)).length := by
      rw [h.length_flatten, length_readBytes]
      exact Nat.mul_le_mul_right array.size hnumber
    have hslice : slice (xs.flatten ++ old) 0 (uint (array.elements * array.size)) =
        some xs.flatten := by
      rw [h.offset h.elements_le, ← h.length_flatten]
      exact slice_append [] xs.flatten old
    have hsplice : splice (readBytes garbage (number * array.size)) 0 xs.flatten = some
        (xs.flatten ++ (readBytes garbage (number * array.size)).drop xs.flatten.length) :=
      splice_behind [] hfits
    refine ⟨(readBytes garbage (number * array.size)).drop xs.flatten.length, ?_, ?_⟩
    · rw [newBuffer, if_pos hplace]
      simp only [myMalloc, Option.map_some, hbuffer, Option.bind_eq_bind, Option.bind_some,
        hslice, hsplice]
    · rw [length_readBytes] at hfits
      rw [List.length_append, List.length_drop, length_readBytes]
      omega
  · rcases myRealloc_spec h garbage hnumber with ⟨spare, hrealloc, hlength⟩
    refine ⟨spare, ?_, hlength⟩
    rw [newBuffer, if_neg hplace, if_neg (by simp), hrealloc]

theorem myArrayFree_spec (h : Holds array xs) (garbage : Bytes)
    (hbytes : max array.elements 1 * array.size < 2 ^ 32) :
    Holds (myArrayFree array (some garbage)) xs ∧
      (myArrayFree array (some garbage)).size = array.size := by
  rw [myArrayFree]
  split
  · exact ⟨h, rfl⟩
  · split
    · have hnumber : array.elements <= max array.elements 1 := Nat.le_max_left ..
      rcases myRealloc_spec h garbage hnumber with ⟨spare, hrealloc, hlength⟩
      rw [uint_of_lt hbytes, hrealloc]
      exact ⟨h.rebuffer array.inPlace hnumber hbytes hlength, rfl⟩
    · exact ⟨h, rfl⟩

/-!
## Writing elements
-/

theorem write_of_splice {buffer buffer' bytes : List UInt8} {offset : Nat}
    (hbuffer : array.buffer = some buffer) (hsplice : splice buffer offset bytes = some buffer') :
    array.write offset bytes = some { array with buffer := some buffer' } := by
  rw [MyArray.write, hbuffer]
  simp only [Option.bind_eq_bind, Option.bind_some, hsplice]

theorem write_behind (h : Holds array xs) {ys : List (List UInt8)} (hys : Pieces array.size ys)
    (hfit : xs.length + ys.length <= array.number) :
    exists buffer, Holds { array with
        buffer := some buffer, elements := xs.length + ys.length } (xs ++ ys) ∧
      forall elements, { array with elements := elements }.write
          (uint (xs.length * array.size)) ys.flatten =
        some { array with buffer := some buffer, elements := elements } := by
  rcases h.buffer with ⟨spare, hbuffer, hlength⟩
  have hxs : xs.flatten.length = xs.length * array.size := h.pieces.length_flatten
  have hroom : ys.flatten.length <= spare.length := by
    have hle : (xs.length + ys.length) * array.size <= array.number * array.size :=
      Holds.offset_le hfit
    rw [List.length_append, hxs] at hlength
    rw [Nat.add_mul] at hle
    rw [hys.length_flatten]
    omega
  have hsplice := splice_behind xs.flatten hroom
  rw [← List.flatten_append] at hsplice
  refine ⟨(xs ++ ys).flatten ++ spare.drop ys.flatten.length, ?_, ?_⟩
  · exact {
      size_pos := h.size_pos
      increment_pos := h.increment_pos
      elements_eq := List.length_append.symm
      elements_le := hfit
      pieces := Pieces.append_iff.mpr ⟨h.pieces, hys⟩
      buffer := by
        refine ⟨_, rfl, ?_⟩
        rw [← hlength, List.flatten_append]
        simp only [List.length_append, List.length_drop]
        omega
      bytes_lt := h.bytes_lt }
  · intro elements
    have hoffset : uint (xs.length * array.size) = xs.flatten.length := by
      rw [h.offset (Nat.le_trans (Nat.le_add_right ..) hfit), hxs]
    rw [hoffset]
    exact write_of_splice hbuffer hsplice

theorem write_at {first rest : List (List UInt8)} {x y : List UInt8}
    (h : Holds array (first ++ x :: rest)) (hy : y.length = array.size) :
    exists buffer, array.write (uint (first.length * array.size)) y =
        some { array with buffer := some buffer } ∧
      Holds { array with buffer := some buffer } (first ++ y :: rest) := by
  rcases h.buffer with ⟨spare, hbuffer, hlength⟩
  rcases Pieces.append_iff.mp h.pieces with ⟨hfirst, hxrest⟩
  rcases Pieces.cons_iff.mp hxrest with ⟨hx, hrest⟩
  have hcells : forall z : List UInt8, (first ++ z :: rest).flatten ++ spare =
      first.flatten ++ z ++ (rest.flatten ++ spare) := by
    intro z
    simp only [List.flatten_append, List.flatten_cons, List.append_assoc]
  have hle : first.length <= array.number := by
    have helements := h.elements_eq
    have hnumber := h.elements_le
    rw [List.length_append] at helements
    omega
  have hoffset : uint (first.length * array.size) = first.flatten.length := by
    rw [h.offset hle, hfirst.length_flatten]
  have hsplice : splice ((first ++ x :: rest).flatten ++ spare) first.flatten.length y =
      some ((first ++ y :: rest).flatten ++ spare) := by
    rw [hcells, hcells]
    exact splice_append (hy.trans hx.symm)
  refine ⟨(first ++ y :: rest).flatten ++ spare, ?_, ?_⟩
  · rw [hoffset]
    exact write_of_splice hbuffer hsplice
  · exact {
      size_pos := h.size_pos
      increment_pos := h.increment_pos
      elements_eq := by
        rw [h.elements_eq, List.length_append, List.length_append]
        rfl
      elements_le := h.elements_le
      pieces := Pieces.append_iff.mpr ⟨hfirst, Pieces.cons_iff.mpr ⟨hy, hrest⟩⟩
      buffer := by
        refine ⟨spare, rfl, ?_⟩
        rw [← hlength, hcells, hcells]
        simp only [List.length_append, hx, hy]
      bytes_lt := h.bytes_lt }

theorem myArrayDelete_spec {first rest : List (List UInt8)} {x : List UInt8}
    (h : Holds array (first ++ x :: rest)) :
    exists array', myArrayDelete array first.length = some array' ∧
      Holds array' (first ++ rest) ∧ array'.size = array.size := by
  rcases h.buffer with ⟨spare, hbuffer, hlength⟩
  rcases Pieces.append_iff.mp h.pieces with ⟨hfirst, hxrest⟩
  rcases Pieces.cons_iff.mp hxrest with ⟨hx, hrest⟩
  have helements : array.elements = first.length + (rest.length + 1) := by
    rw [h.elements_eq, List.length_append, List.length_cons]
  have hnumber := h.elements_le
  have hlt := h.number_lt
  have hptr : uint (array.size * first.length) = first.flatten.length := by
    rw [Nat.mul_comm, h.offset (by omega), hfirst.length_flatten]
  have hfewer : uint (array.elements + (2 ^ 32 - 1)) = first.length + rest.length := by
    rw [uint_pred (by omega) (by omega)]
    omega
  have hcount : uint (uint (first.length + rest.length + (2 ^ 32 - first.length)) * array.size) =
      rest.flatten.length := by
    have hrestLength : uint (first.length + rest.length + (2 ^ 32 - first.length)) =
        rest.length := by
      unfold uint
      omega
    rw [hrestLength, h.offset (by omega), hrest.length_flatten]
  have hslice : slice ((first ++ x :: rest).flatten ++ spare)
      (first.flatten.length + array.size) rest.flatten.length = some rest.flatten := by
    have hcells : (first ++ x :: rest).flatten ++ spare =
        (first.flatten ++ x) ++ rest.flatten ++ spare := by
      simp only [List.flatten_append, List.flatten_cons, List.append_assoc]
    rw [hcells, ← hx, ← List.length_append]
    exact slice_append (first.flatten ++ x) rest.flatten spare
  -- what is moved down overwrites the element and all but the end of the rest
  have htail : rest.flatten.length <= (x ++ rest.flatten ++ spare).length := by
    simp only [List.length_append]
    omega
  have hcells : (first ++ x :: rest).flatten ++ spare =
      first.flatten ++ (x ++ rest.flatten ++ spare) := by
    simp only [List.flatten_append, List.flatten_cons, List.append_assoc]
  have hsplice := splice_behind first.flatten htail
  rw [← hcells, ← List.flatten_append] at hsplice
  refine ⟨{ array with
      buffer := some ((first ++ rest).flatten ++
        (x ++ rest.flatten ++ spare).drop rest.flatten.length)
      elements := first.length + rest.length }, ?_, ?_, rfl⟩
  · rw [myArrayDelete]
    simp only [hptr, hfewer, hbuffer, Option.bind_eq_bind, Option.bind_some, hcount, hslice,
      write_of_splice hbuffer hsplice]
  · exact {
      size_pos := h.size_pos
      increment_pos := h.increment_pos
      elements_eq := List.length_append.symm
      elements_le := by
        show first.length + rest.length <= array.number
        omega
      pieces := Pieces.append_iff.mpr ⟨hfirst, hrest⟩
      buffer := by
        refine ⟨(x ++ rest.flatten ++ spare).drop rest.flatten.length, rfl, ?_⟩
        rw [← hlength, hcells, List.flatten_append]
        simp only [List.length_append, List.length_drop]
        omega
      bytes_lt := h.bytes_lt }

end GrowableArray
end MyLibs
