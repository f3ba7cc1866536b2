import Mathlib.Data.List.Basic

/-!
# Reading and writing parts of a block

A block is a list of cells. Reading or writing a part that is not inside of it
fails. A block that is cut into pieces of one size is the concatenation of a list
of lists.
-/

namespace MyLibs
namespace Foundation

variable {α : Type _}

def slice (block : List α) (i n : Nat) : Option (List α) :=
  if i + n <= block.length then some ((block.drop i).take n) else none

def splice (block : List α) (i : Nat) (cells : List α) : Option (List α) :=
  if i + cells.length <= block.length then
    some (block.take i ++ cells ++ block.drop (i + cells.length))
  else
    none

def Pieces (n : Nat) (pieces : List (List α)) : Prop :=
  forall piece, piece ∈ pieces -> piece.length = n

variable {n : Nat} {a b c : List α} {pieces : List (List α)}

theorem slice_append (a b c : List α) : slice (a ++ b ++ c) a.length b.length = some b := by
  rw [slice, if_pos (by simp only [List.length_append]; omega), List.append_assoc,
    List.drop_left, List.take_left]

theorem splice_append {cells : List α} (hlength : cells.length = b.length) :
    splice (a ++ b ++ c) a.length cells = some (a ++ cells ++ c) := by
  have hdrop : (a ++ b ++ c).drop (a.length + b.length) = c := by
    rw [← List.length_append, List.drop_left]
  rw [splice, if_pos (by simp only [List.length_append]; omega), hlength, hdrop,
    List.append_assoc a b c, List.take_left]

theorem splice_length {block block' cells : List α} {i : Nat}
    (h : splice block i cells = some block') : block'.length = block.length := by
  rw [splice] at h
  split at h
  · rename_i hfit
    cases h
    simp only [List.length_append, List.length_take, List.length_drop]
    omega
  · cases h

theorem splice_behind (a : List α) {spare : List α} (hfit : b.length <= spare.length) :
    splice (a ++ spare) a.length b = some (a ++ b ++ spare.drop b.length) := by
  have hsplit : a ++ spare = a ++ spare.take b.length ++ spare.drop b.length := by
    rw [List.append_assoc, List.take_append_drop]
  rw [hsplit]
  exact splice_append (List.length_take_of_le hfit).symm

namespace Pieces

theorem nil : Pieces n ([] : List (List α)) :=
  fun _ h => by cases h

theorem cons_iff {piece : List α} :
    Pieces n (piece :: pieces) <-> piece.length = n ∧ Pieces n pieces :=
  List.forall_mem_cons

theorem append_iff {more : List (List α)} :
    Pieces n (pieces ++ more) <-> Pieces n pieces ∧ Pieces n more :=
  List.forall_mem_append

theorem singleton {piece : List α} (h : piece.length = n) : Pieces n [piece] :=
  cons_iff.mpr ⟨h, nil⟩

theorem replicate (k : Nat) {piece : List α} (h : piece.length = n) :
    Pieces n (List.replicate k piece) := by
  intro other hother
  rw [List.eq_of_mem_replicate hother]
  exact h

theorem length_flatten (h : Pieces n pieces) : pieces.flatten.length = pieces.length * n := by
  induction pieces with
  | nil => simp
  | cons piece pieces ih =>
      rcases cons_iff.mp h with ⟨hpiece, hpieces⟩
      rw [List.flatten_cons, List.length_append, hpiece, ih hpieces, List.length_cons,
        Nat.succ_mul, Nat.add_comm]

end Pieces

end Foundation
end MyLibs
