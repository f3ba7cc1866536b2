import Mathlib.Data.List.Nodup
import Mathlib.Tactic.Common

/-!
# Linked segments

A `next` function on cells and the lists of cells one passes by following it.
Both arrays of links and heaps of nodes use these segments; nothing here says
what a cell holds.
-/

namespace MyLibs
namespace Foundation

variable {ι : Type _}

/-- Following `next` from `start` passes exactly the cells of the path, in
order, and arrives at `stop`. -/
def Segment (next : ι -> ι) : ι -> List ι -> ι -> Prop
  | start, [], stop => start = stop
  | start, i :: path, stop => start = i ∧ Segment next (next i) path stop

namespace Segment

variable {next next' : ι -> ι} {start stop mid : ι} {path rest : List ι}

@[simp]
theorem nil_iff : Segment next start [] stop <-> start = stop :=
  Iff.rfl

@[simp]
theorem cons_iff {i : ι} :
    Segment next start (i :: path) stop <->
      start = i ∧ Segment next (next i) path stop :=
  Iff.rfl

theorem append (hfirst : Segment next start path mid)
    (hsecond : Segment next mid rest stop) :
    Segment next start (path ++ rest) stop := by
  induction path generalizing start with
  | nil =>
      rw [nil_iff] at hfirst
      simpa [hfirst] using hsecond
  | cons i path ih => exact ⟨hfirst.left, ih hfirst.right⟩

theorem split (h : Segment next start (path ++ rest) stop) :
    exists mid, Segment next start path mid ∧ Segment next mid rest stop := by
  induction path generalizing start with
  | nil => exact ⟨start, rfl, h⟩
  | cons i path ih =>
      rcases ih h.right with ⟨mid, hfirst, hsecond⟩
      exact ⟨mid, ⟨h.left, hfirst⟩, hsecond⟩

theorem split_cons {i : ι} (h : Segment next start (path ++ i :: rest) stop) :
    Segment next start path i ∧ Segment next (next i) rest stop := by
  rcases h.split with ⟨mid, hfirst, hmid, hsecond⟩
  rw [hmid] at hfirst
  exact ⟨hfirst, hsecond⟩

theorem append_cons {i : ι} (hfirst : Segment next start path i)
    (hsecond : Segment next (next i) rest stop) :
    Segment next start (path ++ i :: rest) stop :=
  hfirst.append ⟨rfl, hsecond⟩

theorem congr (hsame : forall i, i ∈ path -> next' i = next i)
    (h : Segment next start path stop) : Segment next' start path stop := by
  induction path generalizing start with
  | nil => exact h
  | cons i path ih =>
      refine ⟨h.left, ?_⟩
      rw [hsame i (List.mem_cons_self ..)]
      exact ih (fun j hj => hsame j (List.mem_cons_of_mem i hj)) h.right

theorem eq_cons (h : Segment next start path stop) (hpath : path ≠ []) :
    exists tail, path = start :: tail := by
  cases path with
  | nil => exact absurd rfl hpath
  | cons i tail => exact ⟨tail, by rw [h.left]⟩

theorem next_last {i : ι} (h : Segment next start (path ++ [i]) stop) :
    next i = stop :=
  h.split_cons.right

theorem next_of_append_cons_cons {i j : ι}
    (h : Segment next start (path ++ i :: j :: rest) stop) : next i = j :=
  h.split_cons.right.left

/-!
## Segments up to the end marker

A segment that ends in a marker it does not contain is determined by its
start, so it cannot pass a cell twice.
-/

theorem unique {other : List ι} (h : Segment next start path stop)
    (hother : Segment next start other stop) (hpath : stop ∉ path)
    (hstop : stop ∉ other) : path = other := by
  induction path generalizing start other with
  | nil =>
      cases other with
      | nil => rfl
      | cons j other =>
          rw [nil_iff] at h
          rw [← hother.left, h] at hstop
          exact absurd (List.mem_cons_self ..) hstop
  | cons i path ih =>
      cases other with
      | nil =>
          rw [nil_iff] at hother
          rw [← h.left, hother] at hpath
          exact absurd (List.mem_cons_self ..) hpath
      | cons j other =>
          have hij : i = j := h.left.symm.trans hother.left
          subst hij
          rw [ih h.right hother.right (List.not_mem_of_not_mem_cons hpath)
            (List.not_mem_of_not_mem_cons hstop)]

/-- A segment up to a marker it does not contain is acyclic. -/
theorem nodup (h : Segment next start path stop) (hstop : stop ∉ path) :
    path.Nodup := by
  induction path generalizing start with
  | nil => exact List.nodup_nil
  | cons i path ih =>
      have htail := List.not_mem_of_not_mem_cons hstop
      refine List.nodup_cons.mpr ⟨?_, ih h.right htail⟩
      intro hi
      rcases List.append_of_mem hi with ⟨before, after, hsplit⟩
      -- the path from the second visit of `i` would be the whole path again
      have hsecond : Segment next i (i :: after) stop := by
        have hright := h.right
        rw [hsplit] at hright
        exact ⟨rfl, hright.split_cons.right⟩
      have hafter : stop ∉ i :: after := by
        intro hmem
        apply htail
        rw [hsplit]
        exact List.mem_append_right before hmem
      have hfirst : Segment next i (i :: path) stop := ⟨rfl, h.right⟩
      have hwhole := unique hfirst hsecond hstop hafter
      have hlength := congrArg List.length hwhole
      rw [hsplit] at hlength
      simp only [List.length_cons, List.length_append] at hlength
      omega

end Segment

end Foundation
end MyLibs
