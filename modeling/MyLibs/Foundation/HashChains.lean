import Mathlib.Data.Finset.Card
import MyLibs.Foundation.Segment

/-!
# Chains of hash buckets in one array of slots

Linear hashing keeps all chains in one array: the chain of bucket `b` starts in
slot `b` itself, and a record that does not fit there lives in some other slot,
whose own bucket must then be empty. `home` is the bucket of the record in a
slot; `live` are the slots that hold a record.

Each lemma of the second half is one rewiring. The functions before and after
are only compared on the slots that matter, so that several rewirings can be
read off one pair of functions.
-/

namespace MyLibs
namespace Foundation

variable {ι : Type _} {nil : ι} {next next' home home' : ι -> ι}
variable {live live' : Finset ι}

structure IsChain (nil : ι) (next home : ι -> ι) (live : Finset ι) (b : ι)
    (path : List ι) : Prop where
  segment : Segment next b path nil
  mem_iff : forall i, i ∈ path <-> i ∈ live ∧ home i = b

def Chained (nil : ι) (next home : ι -> ι) (live : Finset ι) : Prop :=
  forall i, i ∈ live -> exists path, IsChain nil next home live (home i) path

namespace IsChain

variable {b : ι} {path : List ι}

theorem nil_not_mem (h : IsChain nil next home live b path) (hnil : nil ∉ live) :
    nil ∉ path := by
  intro hmem
  exact hnil ((h.mem_iff nil).mp hmem).left

theorem nodup (h : IsChain nil next home live b path) (hnil : nil ∉ live) :
    path.Nodup :=
  h.segment.nodup (h.nil_not_mem hnil)

theorem length_le_card (h : IsChain nil next home live b path)
    (hnil : nil ∉ live) : path.length <= live.card := by
  classical
  rw [← List.toFinset_card_of_nodup (h.nodup hnil)]
  apply Finset.card_le_card
  intro i hi
  exact ((h.mem_iff i).mp (List.mem_toFinset.mp hi)).left

theorem eq_cons (h : IsChain nil next home live b path) {i : ι} (hi : i ∈ live)
    (hhome : home i = b) : exists tail, path = b :: tail := by
  apply h.segment.eq_cons
  intro hpath
  have hmem := (h.mem_iff i).mpr ⟨hi, hhome⟩
  rw [hpath] at hmem
  exact List.not_mem_nil hmem

theorem next_eq_nil_or_mem (h : IsChain nil next home live b path) {i : ι}
    (hi : i ∈ path) : next i = nil ∨ next i ∈ path := by
  rcases List.append_of_mem hi with ⟨before, after, hsplit⟩
  have hsegment := h.segment
  rw [hsplit] at hsegment ⊢
  cases after with
  | nil => exact Or.inl hsegment.next_last
  | cons j after =>
      right
      rw [hsegment.next_of_append_cons_cons]
      simp

theorem split_next (h : IsChain nil next home live b path) {p x : ι}
    (hp : p ∈ path) (hnext : next p = x) (hx : x ≠ nil) :
    exists before after, path = before ++ p :: x :: after := by
  rcases List.append_of_mem hp with ⟨before, after, hsplit⟩
  have hsegment := h.segment
  rw [hsplit] at hsegment
  cases after with
  | nil => exact absurd (hnext.symm.trans hsegment.next_last) hx
  | cons j after =>
      have hj : x = j := hnext.symm.trans hsegment.next_of_append_cons_cons
      exact ⟨before, after, by rw [hsplit, hj]⟩

theorem exists_pred (h : IsChain nil next home live b path) {x : ι}
    (hx : x ∈ path) (hne : x ≠ b) :
    exists before p after, path = before ++ p :: x :: after := by
  rcases List.append_of_mem hx with ⟨before, after, hsplit⟩
  rcases List.eq_nil_or_concat before with hempty | ⟨initial, p, hlast⟩
  · have hsegment := h.segment
    rw [hsplit, hempty] at hsegment
    exact absurd hsegment.left.symm hne
  · refine ⟨initial, p, after, ?_⟩
    rw [hsplit, hlast]
    simp

end IsChain

namespace Chained

theorem empty : Chained nil next home ∅ := by
  intro i hi
  exact absurd hi (Finset.notMem_empty i)

theorem home_mem (h : Chained nil next home live) {i : ι} (hi : i ∈ live) :
    home i ∈ live ∧ home (home i) = home i := by
  rcases h i hi with ⟨path, hpath⟩
  rcases hpath.eq_cons hi rfl with ⟨tail, htail⟩
  apply (hpath.mem_iff (home i)).mp
  rw [htail]
  exact List.mem_cons_self ..

theorem chain_of_head (h : Chained nil next home live) {b : ι} (hb : b ∈ live)
    (hhome : home b = b) : exists tail, IsChain nil next home live b (b :: tail) := by
  rcases h b hb with ⟨path, hpath⟩
  rw [hhome] at hpath
  rcases hpath.eq_cons hb hhome with ⟨tail, htail⟩
  rw [htail] at hpath
  exact ⟨tail, hpath⟩

theorem exists_pred (h : Chained nil next home live) {x : ι} (hx : x ∈ live)
    (hforeign : home x ≠ x) :
    exists before p after,
      IsChain nil next home live (home x) (before ++ p :: x :: after) := by
  rcases h x hx with ⟨path, hpath⟩
  have hmem := (hpath.mem_iff x).mpr ⟨hx, rfl⟩
  rcases hpath.exists_pred hmem (Ne.symm hforeign) with ⟨before, p, after, hsplit⟩
  rw [hsplit] at hpath
  exact ⟨before, p, after, hpath⟩

theorem home_of_next (h : Chained nil next home live) {p : ι} (hp : p ∈ live)
    (hnext : next p ≠ nil) : next p ∈ live ∧ home (next p) = home p := by
  rcases h p hp with ⟨path, hpath⟩
  have hmem := (hpath.mem_iff p).mpr ⟨hp, rfl⟩
  rcases hpath.next_eq_nil_or_mem hmem with hend | hinner
  · exact absurd hend hnext
  · exact (hpath.mem_iff _).mp hinner

/-- A bucket that only slots outside of its chain changed around. -/
theorem keep_chain (h : Chained nil next home live) {i : ι} (hi : i ∈ live')
    (hsame : forall j, j ∈ live' -> home' j = home' i ->
      j ∈ live ∧ home j = home' j)
    (hkeep : forall j, j ∈ live -> home j = home' i ->
      j ∈ live' ∧ home' j = home j ∧ next' j = next j) :
    exists path, IsChain nil next' home' live' (home' i) path := by
  have hold := hsame i hi rfl
  rcases h i hold.left with ⟨path, hpath⟩
  rw [hold.right] at hpath
  refine ⟨path, ?_, ?_⟩
  · apply hpath.segment.congr
    intro j hj
    have hlive := (hpath.mem_iff j).mp hj
    exact (hkeep j hlive.left hlive.right).right.right
  · intro j
    rw [hpath.mem_iff j]
    constructor
    · rintro ⟨hj, hjhome⟩
      have hnew := hkeep j hj hjhome
      exact ⟨hnew.left, hnew.right.left.trans hjhome⟩
    · rintro ⟨hj, hjhome⟩
      have hbefore := hsame j hj hjhome
      exact ⟨hbefore.left, hbefore.right.trans hjhome⟩

theorem of_rewired (h : Chained nil next home live) {b : ι} {path : List ι}
    (hpath : IsChain nil next' home' live' b path)
    (hsame : forall i, i ∈ live' -> home' i ≠ b -> i ∈ live ∧ home i = home' i)
    (hkeep : forall i, i ∈ live' -> home' i ≠ b -> forall j, j ∈ live ->
      home j = home' i -> j ∈ live' ∧ home' j = home j ∧ next' j = next j) :
    Chained nil next' home' live' := by
  intro i hi
  by_cases hhome : home' i = b
  · rw [hhome]
    exact ⟨path, hpath⟩
  · apply h.keep_chain hi
    · intro j hj hjhome
      exact hsame j hj (by rw [hjhome]; exact hhome)
    · exact hkeep i hi hhome

end Chained

end Foundation
end MyLibs
