import MyLibs.Foundation.HashChains

/-!
# Rewiring hash chains

The moves a table makes when records come and go: a record enters its bucket,
leaves it, or is put into another slot.
-/

namespace MyLibs
namespace Foundation
namespace Chained

section Agreement

variable {ι : Type _} {nil : ι} {next next' home home' : ι -> ι}
variable {live : Finset ι}

theorem congr (h : Chained nil next home live)
    (hhome : forall i, i ∈ live -> home' i = home i)
    (hnext : forall i, i ∈ live -> next' i = next i) :
    Chained nil next' home' live := by
  intro i hi
  apply h.keep_chain hi
  · intro j hj _hjhome
    exact ⟨hj, (hhome j hj).symm⟩
  · intro j hj _hjhome
    exact ⟨hj, hhome j hj, hnext j hj⟩

end Agreement

section Rewiring

variable {ι : Type _} [DecidableEq ι] {nil : ι} {next next' home home' : ι -> ι}
variable {live : Finset ι}

/-!
## Entering a bucket
-/

theorem place (h : Chained nil next home live) {b : ι} (hb : b ∉ live)
    (hnext : next b = nil) (hhome : home b = b) :
    Chained nil next home (insert b live) := by
  have hchain : IsChain nil next home (insert b live) b [b] := by
    constructor
    · exact ⟨rfl, hnext⟩
    · intro i
      constructor
      · intro hi
        rw [List.mem_singleton.mp hi]
        exact ⟨Finset.mem_insert_self b live, hhome⟩
      · rintro ⟨hi, hib⟩
        rcases Finset.mem_insert.mp hi with hi | hi
        · exact List.mem_singleton.mpr hi
        · have hhead := (h.home_mem hi).left
          rw [hib] at hhead
          exact absurd hhead hb
  apply h.of_rewired hchain
  · intro i hi hne
    rcases Finset.mem_insert.mp hi with hi | hi
    · rw [hi] at hne
      exact absurd hhome hne
    · exact ⟨hi, rfl⟩
  · intro _i _hi _hne j hj _hjhome
    exact ⟨Finset.mem_insert_of_mem hj, rfl, rfl⟩

theorem insertSecond (h : Chained nil next home live) (hnil : nil ∉ live)
    {b e : ι} (hb : b ∈ live) (hbhome : home b = b)
    (hnextHead : next' b = e) (hnextNew : next' e = next b) (hhomeNew : home' e = b)
    (hhome : forall i, i ∈ live -> home' i = home i)
    (hnext : forall i, i ∈ live -> i ≠ b -> next' i = next i) :
    Chained nil next' home' (insert e live) := by
  rcases h.chain_of_head hb hbhome with ⟨tail, hold⟩
  have hnodup := hold.nodup hnil
  have htail : forall i, i ∈ tail -> i ∈ live ∧ i ≠ b := by
    intro i hi
    refine ⟨((hold.mem_iff i).mp (List.mem_cons_of_mem b hi)).left, ?_⟩
    rintro rfl
    exact (List.nodup_cons.mp hnodup).left hi
  have hchain : IsChain nil next' home' (insert e live) b (b :: e :: tail) := by
    constructor
    · refine ⟨rfl, hnextHead, ?_⟩
      rw [hnextNew]
      apply hold.segment.right.congr
      intro i hi
      exact hnext i (htail i hi).left (htail i hi).right
    · intro i
      have hmem := hold.mem_iff i
      by_cases hie : i = e
      · rw [hie]
        simp [hhomeNew]
      · simp only [List.mem_cons, Finset.mem_insert, hie, false_or] at hmem ⊢
        rw [hmem]
        constructor
        · rintro ⟨hi, hib⟩
          exact ⟨hi, (hhome i hi).trans hib⟩
        · rintro ⟨hi, hib⟩
          exact ⟨hi, (hhome i hi).symm.trans hib⟩
  apply h.of_rewired hchain
  · intro i hi hne
    rcases Finset.mem_insert.mp hi with hi | hi
    · rw [hi] at hne
      exact absurd hhomeNew hne
    · exact ⟨hi, (hhome i hi).symm⟩
  · intro i _hi hne j hj hjhome
    have hjb : j ≠ b := by
      rintro rfl
      exact hne (hjhome.symm.trans hbhome)
    exact ⟨Finset.mem_insert_of_mem hj, hhome j hj, hnext j hj hjb⟩

/-!
## Leaving a bucket
-/

theorem unlinkOnly (h : Chained nil next home live) {b : ι} (hb : b ∈ live)
    (hbhome : home b = b) (hlast : next b = nil) (hnil : nil ∉ live) :
    Chained nil next home (live.erase b) := by
  rcases h.chain_of_head hb hbhome with ⟨tail, hold⟩
  have htail : tail = [] := by
    cases tail with
    | nil => rfl
    | cons j tail =>
        have hj : j ∈ live := ((hold.mem_iff j).mp (by simp)).left
        rw [← hold.segment.right.left, hlast] at hj
        exact absurd hj hnil
  intro i hi
  have hne : home i ≠ b := by
    intro hhome
    have hmem := (hold.mem_iff i).mpr ⟨Finset.mem_of_mem_erase hi, hhome⟩
    rw [htail, List.mem_singleton] at hmem
    exact Finset.ne_of_mem_erase hi hmem
  apply h.keep_chain hi
  · intro j hj _hjhome
    exact ⟨Finset.mem_of_mem_erase hj, rfl⟩
  · intro j hj hjhome
    refine ⟨Finset.mem_erase.mpr ⟨?_, hj⟩, rfl, rfl⟩
    rintro rfl
    exact hne (hjhome.symm.trans hbhome)

theorem unlinkAfter (h : Chained nil next home live) (hnil : nil ∉ live) {p x : ι}
    (hp : p ∈ live) (hx : next p = x) (hxnil : x ≠ nil)
    (hnextPred : next' p = next x)
    (hhome : forall i, i ∈ live -> i ≠ x -> home' i = home i)
    (hnext : forall i, i ∈ live -> i ≠ x -> i ≠ p -> next' i = next i) :
    Chained nil next' home' (live.erase x) := by
  rcases h p hp with ⟨path, hold⟩
  have hnodup := hold.nodup hnil
  rcases hold.split_next ((hold.mem_iff p).mpr ⟨hp, rfl⟩) hx hxnil with
    ⟨before, after, hsplit⟩
  rw [hsplit] at hold hnodup
  have hchain : IsChain nil next' home' (live.erase x) (home p)
      (before ++ p :: after) := by
    constructor
    · have hsegment := hold.segment.split_cons
      have hlive : forall i, i ∈ before ++ p :: x :: after -> i ∈ live :=
        fun i hi => ((hold.mem_iff i).mp hi).left
      apply Segment.append_cons
      · apply hsegment.left.congr
        intro i hi
        exact hnext i (hlive i (by simp [hi])) (by grind) (by grind)
      · rw [hnextPred]
        apply hsegment.right.right.congr
        intro i hi
        exact hnext i (hlive i (by simp [hi])) (by grind) (by grind)
    · intro i
      have hmem := hold.mem_iff i
      by_cases hix : i = x
      · rw [hix]
        grind
      · have herase : i ∈ live.erase x <-> i ∈ live := by simp [hix]
        have hpath : i ∈ before ++ p :: after <->
            i ∈ before ++ p :: x :: after := by simp [hix]
        rw [herase, hpath, hmem]
        constructor
        · rintro ⟨hi, hihome⟩
          exact ⟨hi, (hhome i hi hix).trans hihome⟩
        · rintro ⟨hi, hihome⟩
          exact ⟨hi, (hhome i hi hix).symm.trans hihome⟩
  have hxhome := (h.home_of_next hp (by rw [hx]; exact hxnil)).right
  rw [hx] at hxhome
  apply h.of_rewired hchain
  · intro i hi _hne
    rcases Finset.mem_erase.mp hi with ⟨hix, hi⟩
    exact ⟨hi, (hhome i hi hix).symm⟩
  · intro i _hi hne j hj hjhome
    have hjx : j ≠ x := by
      rintro rfl
      exact hne (hjhome.symm.trans hxhome)
    have hjp : j ≠ p := by
      rintro rfl
      exact hne hjhome.symm
    exact ⟨Finset.mem_erase.mpr ⟨hjx, hj⟩, hhome j hj hjx, hnext j hj hjx hjp⟩

/-!
## Moving to another slot
-/

/-- A slot that is not the head of its chain is replaced by a free one. -/
theorem displace (h : Chained nil next home live) (hnil : nil ∉ live) {p x e : ι}
    (hp : p ∈ live) (hx : next p = x) (hxnil : x ≠ nil)
    (hnextPred : next' p = e) (hnextNew : next' e = next x)
    (hhomeNew : home' e = home x)
    (hhome : forall i, i ∈ live -> i ≠ x -> home' i = home i)
    (hnext : forall i, i ∈ live -> i ≠ x -> i ≠ p -> next' i = next i) :
    Chained nil next' home' (insert e (live.erase x)) := by
  have hxhome := h.home_of_next hp (by rw [hx]; exact hxnil)
  rw [hx] at hxhome
  rcases h p hp with ⟨path, hold⟩
  have hnodup := hold.nodup hnil
  rcases hold.split_next ((hold.mem_iff p).mpr ⟨hp, rfl⟩) hx hxnil with
    ⟨before, after, hsplit⟩
  rw [hsplit] at hold hnodup
  have hlive : forall i, i ∈ before ++ p :: x :: after -> i ∈ live :=
    fun i hi => ((hold.mem_iff i).mp hi).left
  have hchain : IsChain nil next' home' (insert e (live.erase x)) (home p)
      (before ++ p :: e :: after) := by
    constructor
    · have hsegment := hold.segment.split_cons
      apply Segment.append_cons
      · apply hsegment.left.congr
        intro i hi
        exact hnext i (hlive i (by simp [hi])) (by grind) (by grind)
      · refine ⟨hnextPred, ?_⟩
        rw [hnextNew]
        apply hsegment.right.right.congr
        intro i hi
        exact hnext i (hlive i (by simp [hi])) (by grind) (by grind)
    · intro i
      have hmem := hold.mem_iff i
      by_cases hie : i = e
      · rw [hie]
        simp [hhomeNew, hxhome.right]
      · by_cases hix : i = x
        · rw [hix]
          grind
        · have hlives : i ∈ insert e (live.erase x) <-> i ∈ live := by
            simp [hie, hix]
          have hpath : i ∈ before ++ p :: e :: after <->
              i ∈ before ++ p :: x :: after := by simp [hie, hix]
          rw [hlives, hpath, hmem]
          constructor
          · rintro ⟨hi, hihome⟩
            exact ⟨hi, (hhome i hi hix).trans hihome⟩
          · rintro ⟨hi, hihome⟩
            exact ⟨hi, (hhome i hi hix).symm.trans hihome⟩
  apply h.of_rewired hchain
  · intro i hi hne
    rcases Finset.mem_insert.mp hi with hi | hi
    · rw [hi, hhomeNew, hxhome.right] at hne
      exact absurd rfl hne
    · rcases Finset.mem_erase.mp hi with ⟨hix, hi⟩
      exact ⟨hi, (hhome i hi hix).symm⟩
  · intro i _hi hne j hj hjhome
    have hjx : j ≠ x := by
      rintro rfl
      exact hne (hjhome.symm.trans hxhome.right)
    have hjp : j ≠ p := by
      rintro rfl
      exact hne hjhome.symm
    exact ⟨Finset.mem_insert_of_mem (Finset.mem_erase.mpr ⟨hjx, hj⟩),
      hhome j hj hjx, hnext j hj hjx hjp⟩

/-- The head of bucket `b` moves to the free slot `e`, which becomes the slot of
the bucket. -/
theorem renameHead (h : Chained nil next home live) (hnil : nil ∉ live) {b e : ι}
    (hb : b ∈ live) (hbhome : home b = b) (he : e ∉ live)
    (hnextNew : next' e = next b) (hhomeNew : home' e = e)
    (hhomeBucket : forall i, i ∈ live -> i ≠ b -> home i = b -> home' i = e)
    (hhome : forall i, i ∈ live -> home i ≠ b -> home' i = home i)
    (hnext : forall i, i ∈ live -> i ≠ b -> next' i = next i) :
    Chained nil next' home' (insert e (live.erase b)) := by
  rcases h.chain_of_head hb hbhome with ⟨tail, hold⟩
  have hnodup := hold.nodup hnil
  have htail : forall i, i ∈ tail -> i ∈ live ∧ home i = b ∧ i ≠ b := by
    intro i hi
    have hmem := (hold.mem_iff i).mp (List.mem_cons_of_mem b hi)
    refine ⟨hmem.left, hmem.right, ?_⟩
    rintro rfl
    exact (List.nodup_cons.mp hnodup).left hi
  have hfree : forall i, i ∈ live -> home i ≠ e := by
    intro i hi hie
    have hhead := (h.home_mem hi).left
    rw [hie] at hhead
    exact he hhead
  have hchain : IsChain nil next' home' (insert e (live.erase b)) e (e :: tail) := by
    constructor
    · refine ⟨rfl, ?_⟩
      rw [hnextNew]
      apply hold.segment.right.congr
      intro i hi
      exact hnext i (htail i hi).left (htail i hi).right.right
    · intro i
      have hmem := hold.mem_iff i
      by_cases hie : i = e
      · rw [hie]
        simp [hhomeNew]
      · simp only [List.mem_cons, hie, false_or, Finset.mem_insert,
          Finset.mem_erase] at hmem ⊢
        constructor
        · intro hi
          have hfacts := htail i hi
          exact ⟨⟨hfacts.right.right, hfacts.left⟩,
            hhomeBucket i hfacts.left hfacts.right.right hfacts.right.left⟩
        · rintro ⟨⟨hib, hi⟩, hihome⟩
          by_cases hold' : home i = b
          · exact (hmem.mpr ⟨hi, hold'⟩).resolve_left hib
          · rw [hhome i hi hold'] at hihome
            exact absurd hihome (hfree i hi)
  apply h.of_rewired hchain
  · intro i hi hne
    rcases Finset.mem_insert.mp hi with hi | hi
    · rw [hi] at hne
      exact absurd hhomeNew hne
    · rcases Finset.mem_erase.mp hi with ⟨hib, hi⟩
      by_cases hihome : home i = b
      · exact absurd (hhomeBucket i hi hib hihome) hne
      · exact ⟨hi, (hhome i hi hihome).symm⟩
  · intro i hi hne j hj hjhome
    have hjb : home j ≠ b := by
      intro hjb
      have hib : home' i = b := hjhome.symm.trans hjb
      rcases Finset.mem_insert.mp hi with hi | hi
      · rw [hi] at hne
        exact hne hhomeNew
      · rcases Finset.mem_erase.mp hi with ⟨hine, hi⟩
        by_cases hihome : home i = b
        · exact hne (hhomeBucket i hi hine hihome)
        · exact hihome ((hhome i hi hihome).symm.trans hib)
    have hjne : j ≠ b := by
      rintro rfl
      exact hjb hbhome
    exact ⟨Finset.mem_insert_of_mem (Finset.mem_erase.mpr ⟨hjne, hj⟩),
      hhome j hj hjb, hnext j hj hjne⟩

/-!
## Merging two buckets
-/

theorem pushFront (h : Chained nil next home live) {b p : ι} (hb : b ∈ live)
    (hbhome : home b = b) (hp : p ∉ live) (hnextHead : next' p = b)
    (hhomeHead : home' p = p)
    (hhomeBucket : forall i, i ∈ live -> home i = b -> home' i = p)
    (hhome : forall i, i ∈ live -> home i ≠ b -> home' i = home i)
    (hnext : forall i, i ∈ live -> next' i = next i) :
    Chained nil next' home' (insert p live) := by
  rcases h.chain_of_head hb hbhome with ⟨tail, hold⟩
  have hfree : forall i, i ∈ live -> home i ≠ p := by
    intro i hi hip
    have hhead := (h.home_mem hi).left
    rw [hip] at hhead
    exact hp hhead
  have hchain : IsChain nil next' home' (insert p live) p (p :: b :: tail) := by
    constructor
    · refine ⟨rfl, ?_⟩
      rw [hnextHead]
      apply hold.segment.congr
      intro i hi
      exact hnext i ((hold.mem_iff i).mp hi).left
    · intro i
      have hmem := hold.mem_iff i
      by_cases hip : i = p
      · rw [hip]
        simp [hhomeHead]
      · rw [List.mem_cons, Finset.mem_insert]
        simp only [hip, false_or]
        constructor
        · intro hi
          have hlive := hmem.mp hi
          exact ⟨hlive.left, hhomeBucket i hlive.left hlive.right⟩
        · rintro ⟨hi, hihome⟩
          by_cases hib : home i = b
          · exact hmem.mpr ⟨hi, hib⟩
          · rw [hhome i hi hib] at hihome
            exact absurd hihome (hfree i hi)
  apply h.of_rewired hchain
  · intro i hi hne
    rcases Finset.mem_insert.mp hi with hi | hi
    · rw [hi] at hne
      exact absurd hhomeHead hne
    · by_cases hib : home i = b
      · exact absurd (hhomeBucket i hi hib) hne
      · exact ⟨hi, (hhome i hi hib).symm⟩
  · intro i hi hne j hj hjhome
    have hjb : home j ≠ b := by
      intro hjb
      rcases Finset.mem_insert.mp hi with hi | hi
      · rw [hi] at hne
        exact hne hhomeHead
      · by_cases hib : home i = b
        · exact hne (hhomeBucket i hi hib)
        · exact hib ((hhome i hi hib).symm.trans (hjhome.symm.trans hjb))
    exact ⟨Finset.mem_insert_of_mem hj, hhome j hj hjb, hnext j hj⟩

theorem spliceSecond (h : Chained nil next home live) (hnil : nil ∉ live)
    {b p q : ι} (hb : b ∈ live) (hbhome : home b = b) (hp : p ∈ live)
    (hphome : home p = p) (hne : b ≠ p) (hq : q ∈ live) (hqhome : home q = b)
    (hlast : next q = nil) (hnextHead : next' p = b) (hnextLast : next' q = next p)
    (hhomeBucket : forall i, i ∈ live -> home i = b -> home' i = p)
    (hhome : forall i, i ∈ live -> home i ≠ b -> home' i = home i)
    (hnext : forall i, i ∈ live -> i ≠ p -> i ≠ q -> next' i = next i) :
    Chained nil next' home' live := by
  rcases h.chain_of_head hb hbhome with ⟨inner, hinner⟩
  rcases h.chain_of_head hp hphome with ⟨tail, houter⟩
  have htail : forall i, i ∈ tail -> i ∈ live ∧ home i = p ∧ i ≠ p := by
    intro i hi
    have hmem := (houter.mem_iff i).mp (List.mem_cons_of_mem p hi)
    refine ⟨hmem.left, hmem.right, ?_⟩
    rintro rfl
    exact (List.nodup_cons.mp (houter.nodup hnil)).left hi
  have hmoved : forall i, i ∈ b :: inner -> i ∈ live ∧ home i = b :=
    fun i hi => (hinner.mem_iff i).mp hi
  -- `q` is the last slot of the inner chain
  have hpath : exists initial, b :: inner = initial ++ [q] := by
    rcases List.append_of_mem ((hinner.mem_iff q).mpr ⟨hq, hqhome⟩) with
      ⟨before, after, hsplit⟩
    have hsegment := hinner.segment
    rw [hsplit] at hsegment
    cases after with
    | nil => exact ⟨before, hsplit⟩
    | cons j after =>
        have hj : j ∈ live := (hmoved j (by rw [hsplit]; simp)).left
        rw [← hsegment.next_of_append_cons_cons, hlast] at hj
        exact absurd hj hnil
  rcases hpath with ⟨initial, hinitial⟩
  rw [hinitial] at hinner hmoved
  have hnodup := hinner.nodup hnil
  have hchain : IsChain nil next' home' live p (p :: (initial ++ q :: tail)) := by
    constructor
    · refine ⟨rfl, ?_⟩
      rw [hnextHead]
      apply Segment.append_cons
      · apply hinner.segment.split_cons.left.congr
        intro i hi
        have hfacts := hmoved i (List.mem_append_left _ hi)
        refine hnext i hfacts.left ?_ (by grind)
        rintro rfl
        exact hne (hfacts.right.symm.trans hphome)
      · rw [hnextLast]
        apply houter.segment.right.congr
        intro i hi
        have hfacts := htail i hi
        refine hnext i hfacts.left hfacts.right.right ?_
        rintro rfl
        exact hne (hqhome.symm.trans hfacts.right.left)
    · intro i
      have hmemInner := hinner.mem_iff i
      have hmemOuter := houter.mem_iff i
      have hpath : i ∈ p :: (initial ++ q :: tail) <->
          i ∈ initial ++ [q] ∨ i ∈ p :: tail := by
        simp only [List.mem_cons, List.mem_append]
        grind
      rw [hpath, hmemInner, hmemOuter]
      constructor
      · rintro (⟨hi, hib⟩ | ⟨hi, hip⟩)
        · exact ⟨hi, hhomeBucket i hi hib⟩
        · refine ⟨hi, (hhome i hi ?_).trans hip⟩
          rw [hip]
          exact Ne.symm hne
      · rintro ⟨hi, hihome⟩
        by_cases hib : home i = b
        · exact Or.inl ⟨hi, hib⟩
        · exact Or.inr ⟨hi, (hhome i hi hib).symm.trans hihome⟩
  apply h.of_rewired hchain
  · intro i hi hip
    by_cases hib : home i = b
    · exact absurd (hhomeBucket i hi hib) hip
    · exact ⟨hi, (hhome i hi hib).symm⟩
  · intro i hi hip j hj hjhome
    have hib : home i ≠ b := fun hib => hip (hhomeBucket i hi hib)
    have hjb : home j ≠ b := by
      rw [hjhome, hhome i hi hib]
      exact hib
    refine ⟨hj, hhome j hj hjb, hnext j hj ?_ ?_⟩
    · rintro rfl
      exact hip (hjhome.symm.trans hphome)
    · rintro rfl
      exact hjb hqhome

end Rewiring

end Chained
end Foundation
end MyLibs
