import MyLibs.Foundation.DoublyLinked

/-!
# Doubly linked chains in buckets

An array of chain heads and a home bucket for every cell. Each chain is doubly
linked up to `nil` and holds only cells that are at home there, so no cell is on
two chains.
-/

namespace MyLibs
namespace Foundation

section Existence

variable {ι : Type _} [DecidableEq ι] {links : Links ι} {i j : ι}

theorem setNext_eq_none_iff (next : ι) : setNext links i next j = none <-> links j = none := by
  by_cases hj : j = i
  · subst hj
    simp [setNext]
  · rw [setNext_of_ne next hj]

theorem setPrev_eq_none_iff (prev : ι) : setPrev links i prev j = none <-> links j = none := by
  by_cases hj : j = i
  · subst hj
    simp [setPrev]
  · rw [setPrev_of_ne prev hj]

end Existence

variable {ι : Type _}

structure BucketChains (links : Links ι) (nil : ι) (head : Nat -> ι) (home : ι -> Nat)
    (size : Nat) (chains : Nat -> List ι) : Prop where
  nil_none : links nil = none
  doubly : forall b, b < size -> Doubly links nil (head b) (chains b) nil
  atHome : forall b, b < size -> forall i, i ∈ chains b -> home i = b

namespace BucketChains

variable {links links' : Links ι} {nil : ι} {head : Nat -> ι} {home home' : ι -> Nat}
  {size : Nat} {chains : Nat -> List ι} {b : Nat} {i : ι}

theorem ne_nil (h : BucketChains links nil head home size chains) (hb : b < size)
    (hi : i ∈ chains b) : i ≠ nil := by
  rintro rfl
  rcases (h.doubly b hb).exists_links hi with ⟨_, _, hlinks⟩
  rw [h.nil_none] at hlinks
  cases hlinks

theorem bucket_unique (h : BucketChains links nil head home size chains) {b' : Nat}
    (hb : b < size) (hb' : b' < size) (hi : i ∈ chains b) (hi' : i ∈ chains b') : b = b' :=
  (h.atHome b hb i hi).symm.trans (h.atHome b' hb' i hi')

theorem congr_home (hsame : forall b, b < size -> forall i, i ∈ chains b -> home' i = home i)
    (h : BucketChains links nil head home size chains) :
    BucketChains links nil head home' size chains where
  nil_none := h.nil_none
  doubly := h.doubly
  atHome := fun b hb i hi => (hsame b hb i hi).trans (h.atHome b hb i hi)

theorem head_cases (h : BucketChains links nil head home size chains) (hb : b < size) :
    head b = nil ∨ head b ∈ chains b := by
  have hdoubly := h.doubly b hb
  cases hchain : chains b with
  | nil =>
      rw [hchain] at hdoubly
      exact Or.inl hdoubly
  | cons j path =>
      rw [hchain] at hdoubly
      exact Or.inr (by rw [hdoubly.left]; exact List.mem_cons_self ..)

theorem ne_head (h : BucketChains links nil head home size chains) {b' : Nat}
    (hb : b < size) (hb' : b' < size) (hne : b' ≠ b) (hi : i ∈ chains b') : i ≠ head b := by
  rintro rfl
  cases h.head_cases hb with
  | inl hnil => exact h.ne_nil hb' hi hnil
  | inr hmem => exact hne (h.bucket_unique hb' hb hi hmem)

theorem neighbours (h : BucketChains links nil head home size chains) {next prev : ι}
    (hb : b < size) (hi : i ∈ chains b) (hlinks : links i = some (next, prev)) :
    (next = nil ∨ next ∈ chains b) ∧ (prev = nil ∨ prev ∈ chains b) := by
  rcases List.append_of_mem hi with ⟨first, rest, hsplit⟩
  have hdoubly := h.doubly b hb
  rw [hsplit, Doubly.append_iff] at hdoubly
  rcases hdoubly with ⟨mid, _, _, next', hlinks', hrest⟩
  rw [hlinks] at hlinks'
  cases hlinks'
  rw [hsplit]
  constructor
  · cases rest with
    | nil => exact Or.inl hrest
    | cons j rest =>
        rw [hrest.left]
        exact Or.inr (by simp)
  · rcases List.eq_nil_or_concat first with hempty | ⟨front, last, hfirst⟩
    · subst hempty
      exact Or.inl rfl
    · rw [hfirst, List.concat_eq_append, List.getLastD_concat]
      exact Or.inr (by simp)

theorem mem_push_iff (hsame : forall j, j ≠ i -> home' j = home j) (j : ι) :
    j ∈ Function.update chains (home' i) (i :: chains (home' i)) (home' j) <->
      j = i ∨ j ∈ chains (home j) := by
  cases eq_or_ne j i with
  | inl heq => simp [heq]
  | inr hne =>
      rw [hsame j hne]
      cases eq_or_ne (home j) (home' i) with
      | inl hhome => simp [hhome, hne]
      | inr hhome =>
          rw [Function.update_of_ne hhome]
          simp [hne]

variable [DecidableEq ι]

theorem pushed_nil (hnil : links nil = none) {start : ι} (hi : i ≠ nil) :
    pushed links nil start i nil = none := by
  rw [pushed, Function.update_of_ne (Ne.symm hi), setPrev_eq_none_iff]
  exact hnil

/-- A cell put in front of the chain it is at home on. -/
theorem push (h : BucketChains links nil head home size chains) (hhome : home i < size)
    (hne : i ≠ nil) (hnew : i ∉ chains (home i)) :
    BucketChains (pushed links nil (head (home i)) i) nil
      (Function.update head (home i) i) home size
      (Function.update chains (home i) (i :: chains (home i))) where
  nil_none := pushed_nil h.nil_none hne
  doubly := by
    intro b hb
    by_cases hbi : b = home i
    · subst hbi
      rw [Function.update_self, Function.update_self]
      exact (h.doubly (home i) hhome).push h.nil_none hnew hne
    · rw [Function.update_of_ne hbi, Function.update_of_ne hbi]
      refine (h.doubly b hb).congr fun j hj => pushed_of_ne nil ?_ ?_
      · rintro rfl
        exact hbi (h.atHome b hb j hj).symm
      · exact h.ne_head hhome hb hbi hj
  atHome := by
    intro b hb j hj
    by_cases hbi : b = home i
    · subst hbi
      rw [Function.update_self] at hj
      cases hj with
      | head => rfl
      | tail _ hj => exact h.atHome (home i) hb j hj
    · rw [Function.update_of_ne hbi] at hj
      exact h.atHome b hb j hj

/-- A cell taken out of its chain. -/
theorem unlink (h : BucketChains links nil head home size chains) {next prev : ι}
    (hhome : home i < size) (hi : i ∈ chains (home i)) (hlinks : links i = some (next, prev)) :
    BucketChains (unlinked links next prev i) nil
      (if prev = nil then Function.update head (home i) next else head) home size
      (Function.update chains (home i) ((chains (home i)).erase i)) where
  nil_none := by
    rw [unlinked, Function.update_of_ne (Ne.symm (h.ne_nil hhome hi)), setNext_eq_none_iff,
      setPrev_eq_none_iff]
    exact h.nil_none
  doubly := by
    intro b hb
    have hneighbours := h.neighbours hhome hi hlinks
    by_cases hbi : b = home i
    · subst hbi
      have hdoubly := h.doubly (home i) hhome
      have hnodup := hdoubly.nodup h.nil_none
      rcases List.append_of_mem hi with ⟨first, rest, hsplit⟩
      rw [hsplit] at hdoubly hnodup
      have herase : (first ++ i :: rest).erase i = first ++ rest := by
        have hfirst : i ∉ first := by
          rw [List.nodup_append] at hnodup
          exact fun hmem => hnodup.right.right i hmem i (List.mem_cons_self ..) rfl
        rw [List.erase_append_right _ hfirst, List.erase_cons_head]
      rw [Function.update_self, hsplit, herase]
      have hunlinked := hdoubly.unlink h.nil_none hlinks
      split
      · rename_i hprev
        rw [if_pos hprev] at hunlinked
        rw [Function.update_self]
        exact hunlinked
      · rename_i hprev
        rw [if_neg hprev] at hunlinked
        exact hunlinked
    · have hhead : (if prev = nil then Function.update head (home i) next else head) b =
          head b := by
        split
        · rw [Function.update_of_ne hbi]
        · rfl
      have hother : forall j, j ∈ chains b -> forall k, k = nil ∨ k ∈ chains (home i) ->
          j ≠ k := by
        rintro j hj k hk rfl
        cases hk with
        | inl hk => exact h.ne_nil hb hj hk
        | inr hk => exact hbi (h.bucket_unique hb hhome hj hk)
      rw [hhead, Function.update_of_ne hbi]
      exact (h.doubly b hb).congr fun j hj => unlinked_of_ne (hother j hj i (Or.inr hi))
        (hother j hj next hneighbours.left) (hother j hj prev hneighbours.right)
  atHome := by
    intro b hb j hj
    by_cases hbi : b = home i
    · subst hbi
      rw [Function.update_self] at hj
      exact h.atHome (home i) hb j (List.mem_of_mem_erase hj)
    · rw [Function.update_of_ne hbi] at hj
      exact h.atHome b hb j hj

theorem not_mem_unlink (h : BucketChains links nil head home size chains)
    (hhome : home i < size) (hb : b < size) :
    i ∉ Function.update chains (home i) ((chains (home i)).erase i) b := by
  intro hi
  cases eq_or_ne b (home i) with
  | inl heq =>
      rw [heq, Function.update_self] at hi
      exact ((h.doubly _ hhome).nodup h.nil_none).not_mem_erase hi
  | inr hne =>
      rw [Function.update_of_ne hne] at hi
      exact hne (h.atHome b hb i hi).symm

theorem mem_unlink_iff (h : BucketChains links nil head home size chains)
    (hhome : home i < size) (hhome' : home' i < size)
    (hsame : forall j, j ≠ i -> home' j = home j) (j : ι) :
    j ∈ Function.update chains (home i) ((chains (home i)).erase i) (home' j) <->
      j ≠ i ∧ j ∈ chains (home j) := by
  cases eq_or_ne j i with
  | inl heq =>
      subst heq
      simp [h.not_mem_unlink hhome hhome']
  | inr hne =>
      rw [hsame j hne]
      cases eq_or_ne (home j) (home i) with
      | inl hj => rw [hj, Function.update_self, List.mem_erase_of_ne hne, and_iff_right hne]
      | inr hj => rw [Function.update_of_ne hj, and_iff_right hne]

end BucketChains

end Foundation
end MyLibs
