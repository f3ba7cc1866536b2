import MyLibs.DynHash.Splitting

/-!
# Inserting a record

Splitting one bucket and placing the new record turn a table of `records` slots
into one with one more slot and one more record.
-/

namespace MyLibs
namespace DynHash

open Foundation

variable {hashnr : Ptr -> UInt32} {blength records : Nat}
variable {data : Nat -> HashLink}

theorem contentsOf_disjUnion {left right : Finset Nat} (h : Disjoint left right) :
    contentsOf (left ∪ right) data = contentsOf left data + contentsOf right data := by
  unfold contentsOf
  rw [← Finset.disjUnion_eq_union left right h, Finset.disjUnion_val, Multiset.map_add]

theorem contentsOf_toFinset {path : List Nat} (h : path.Nodup) :
    contentsOf path.toFinset data = (path.map fun i => (data i).data : List Ptr) := by
  unfold contentsOf
  rw [List.toFinset_val, h.dedup]
  rfl

/-- With one more slot, the records of the bucket that is split go by one bit,
and all others stay. -/
theorem homeOf_succ (hashnr : Ptr -> UInt32) (data : Nat -> HashLink)
    (hsize : TableSize blength records) (hpos : 0 < records)
    (hrecords : records < 2 ^ 31) (i : Nat) :
    (homeOf hashnr blength records data i = records - blength / 2 ∧
      homeOf hashnr blength (records + 1) data i =
        if (hashnr (data i).data).toNat &&& (blength >>> 1) = 0
        then records - blength / 2 else records) ∨
    (homeOf hashnr blength records data i ≠ records - blength / 2 ∧
      homeOf hashnr blength (records + 1) data i =
        homeOf hashnr blength records data i) := by
  by_cases hsplit : homeOf hashnr blength records data i = records - blength / 2
  · left
    exact ⟨hsplit, myHashMask_succ_of_bit hsize hpos hrecords hsplit⟩
  · right
    refine ⟨hsplit, ?_⟩
    rcases myHashMask_succ (hashnr (data i).data) hsize hpos hrecords with
      hsame | ⟨_, hold⟩
    · exact hsame
    · exact absurd hold hsplit

theorem oneFree_of_linked (hsize : TableSize blength records)
    (hrecords : records + 1 < 2 ^ 31) {empty : Nat} (hempty : empty < records + 1)
    (hlinked : Linked hashnr blength (records + 1) data
      ((Finset.range (records + 1)).erase empty)) :
    OneFree hashnr blength (records + 1) data empty where
  bound := hrecords
  empty_lt := hempty
  home_lt _ := myHashMask_succ_lt hsize (by omega)
  linked := hlinked

theorem range_succ_erase (n : Nat) :
    (Finset.range (n + 1)).erase n = Finset.range n := by
  rw [Finset.range_add_one, Finset.erase_insert Finset.notMem_range_self]

theorem linked_of_empty_bucket (hsize : TableSize blength records)
    (hpos : 0 < records) (hrecords : records < 2 ^ 31)
    (hlinked : Linked hashnr blength records data (Finset.range records))
    (hempty : forall i, i ∈ Finset.range records ->
      homeOf hashnr blength records data i ≠ records - blength / 2) :
    Linked hashnr blength (records + 1) data (Finset.range records) := by
  refine Chained.congr hlinked ?_ (fun _ _ => rfl)
  intro i hi
  rcases homeOf_succ hashnr data hsize hpos hrecords i with
    ⟨hsplit, _⟩ | ⟨_, hsame⟩
  · exact absurd hsplit (hempty i hi)
  · exact hsame

/-- The chain `path` of the first half's bucket is dealt out to two chains and a
free slot. -/
structure Dealt (hashnr : Ptr -> UInt32) (blength records : Nat)
    (data data' : Nat -> HashLink) (path low high : List Nat) (empty : Nat) : Prop where
  size : TableSize blength records
  pos : 0 < records
  bound : records < 2 ^ 31
  chain : IsChain NO_RECORD (nextOf data) (homeOf hashnr blength records data)
    (Finset.range records) (records - blength / 2) path
  nodup : (records :: path).Nodup
  slots : (low ++ (high ++ [empty])).Perm (records :: path)
  lowChain : low ≠ [] -> Segment (nextOf data') (records - blength / 2) low NO_RECORD
  highChain : high ≠ [] -> Segment (nextOf data') records high NO_RECORD
  lowHome : forall i, i ∈ low ->
    homeOf hashnr blength (records + 1) data' i = records - blength / 2
  highHome : forall i, i ∈ high ->
    homeOf hashnr blength (records + 1) data' i = records
  same : forall i, i ∉ low -> i ∉ high -> data' i = data i

namespace Dealt

variable {data' : Nat -> HashLink} {path low high : List Nat} {empty i : Nat}

theorem mem_slots (h : Dealt hashnr blength records data data' path low high empty)
    (i : Nat) : i ∈ low ∨ i ∈ high ∨ i = empty <-> i = records ∨ i ∈ path := by
  have hmem := h.slots.mem_iff (a := i)
  simpa [List.mem_append, List.mem_cons] using hmem

theorem slots_nodup (h : Dealt hashnr blength records data data' path low high empty) :
    (low ++ (high ++ [empty])).Nodup :=
  h.slots.symm.nodup h.nodup

theorem path_home (h : Dealt hashnr blength records data data' path low high empty)
    (hi : i ∈ path) :
    i < records ∧ homeOf hashnr blength records data i = records - blength / 2 := by
  have hmem := (h.chain.mem_iff i).mp hi
  exact ⟨Finset.mem_range.mp hmem.left, hmem.right⟩

theorem empty_lt (h : Dealt hashnr blength records data data' path low high empty) :
    empty < records + 1 := by
  rcases (h.mem_slots empty).mp (Or.inr (Or.inr rfl)) with hlast | hinner
  · omega
  · exact Nat.lt_succ_of_lt (h.path_home hinner).left

theorem dealt_live (h : Dealt hashnr blength records data data' path low high empty)
    (hi : i ∈ low ∨ i ∈ high) : i ∈ (Finset.range (records + 1)).erase empty := by
  have hnodup := h.slots_nodup
  have hin : i = records ∨ i ∈ path := (h.mem_slots i).mp (by tauto)
  refine Finset.mem_erase.mpr ⟨?_, Finset.mem_range.mpr ?_⟩
  · rintro rfl
    grind
  · rcases hin with rfl | hi
    · exact Nat.lt_succ_self i
    · exact Nat.lt_succ_of_lt (h.path_home hi).left

theorem other (h : Dealt hashnr blength records data data' path low high empty)
    (hi : i ∈ (Finset.range (records + 1)).erase empty) (hlow : i ∉ low)
    (hhigh : i ∉ high) :
    i ∈ Finset.range records ∧
      homeOf hashnr blength records data i ≠ records - blength / 2 ∧
      homeOf hashnr blength (records + 1) data' i =
        homeOf hashnr blength records data i := by
  rcases Finset.mem_erase.mp hi with ⟨hie, hirange⟩
  have hout : ¬ (i = records ∨ i ∈ path) := by
    rw [← h.mem_slots i]
    tauto
  have hilt : i ∈ Finset.range records := by
    have hle := Finset.mem_range.mp hirange
    apply Finset.mem_range.mpr
    have hne : i ≠ records := fun heq => hout (Or.inl heq)
    omega
  have hbucket : homeOf hashnr blength records data i ≠ records - blength / 2 := by
    intro hhome
    exact hout (Or.inr ((h.chain.mem_iff i).mpr ⟨hilt, hhome⟩))
  refine ⟨hilt, hbucket, ?_⟩
  rcases homeOf_succ hashnr data h.size h.pos h.bound i with ⟨hsplit, _⟩ | ⟨_, hkept⟩
  · exact absurd hsplit hbucket
  · rw [← hkept]
    unfold homeOf
    rw [h.same i hlow hhigh]

theorem home_lt (h : Dealt hashnr blength records data data' path low high empty)
    (i : Nat) : homeOf hashnr blength records data i < records :=
  myHashMask_lt h.size h.pos h.bound

theorem first_ne_last (h : Dealt hashnr blength records data data' path low high empty) :
    records - blength / 2 ≠ records := by
  have hhalf := h.size.half_pos h.pos
  have hle := h.size.half_le
  omega

theorem low_isChain (h : Dealt hashnr blength records data data' path low high empty)
    (hlow : low ≠ []) :
    IsChain NO_RECORD (nextOf data') (homeOf hashnr blength (records + 1) data')
      ((Finset.range (records + 1)).erase empty) (records - blength / 2) low := by
  refine ⟨h.lowChain hlow, ?_⟩
  intro j
  constructor
  · intro hj
    exact ⟨h.dealt_live (Or.inl hj), h.lowHome j hj⟩
  · rintro ⟨hj, hjhome⟩
    by_contra hjlow
    by_cases hjhigh : j ∈ high
    · rw [h.highHome j hjhigh] at hjhome
      exact h.first_ne_last hjhome.symm
    · have hfacts := h.other hj hjlow hjhigh
      rw [hfacts.right.right] at hjhome
      exact hfacts.right.left hjhome

theorem high_isChain (h : Dealt hashnr blength records data data' path low high empty)
    (hhigh : high ≠ []) :
    IsChain NO_RECORD (nextOf data') (homeOf hashnr blength (records + 1) data')
      ((Finset.range (records + 1)).erase empty) records high := by
  refine ⟨h.highChain hhigh, ?_⟩
  intro j
  constructor
  · intro hj
    exact ⟨h.dealt_live (Or.inr hj), h.highHome j hj⟩
  · rintro ⟨hj, hjhome⟩
    by_contra hjhigh
    by_cases hjlow : j ∈ low
    · rw [h.lowHome j hjlow] at hjhome
      exact h.first_ne_last hjhome
    · have hfacts := h.other hj hjlow hjhigh
      rw [hfacts.right.right] at hjhome
      exact absurd (h.home_lt j) (by omega)

theorem linked (h : Dealt hashnr blength records data data' path low high empty)
    (hlinked : Linked hashnr blength records data (Finset.range records)) :
    Linked hashnr blength (records + 1) data'
      ((Finset.range (records + 1)).erase empty) := by
  intro i hi
  by_cases hilow : i ∈ low
  · rw [h.lowHome i hilow]
    exact ⟨low, h.low_isChain (List.ne_nil_of_mem hilow)⟩
  · by_cases hihigh : i ∈ high
    · rw [h.highHome i hihigh]
      exact ⟨high, h.high_isChain (List.ne_nil_of_mem hihigh)⟩
    · have hfacts := h.other hi hilow hihigh
      apply Chained.keep_chain hlinked hi
      · intro j hj hjhome
        have hjlow : j ∉ low := by
          intro hjlow
          rw [h.lowHome j hjlow, hfacts.right.right] at hjhome
          exact hfacts.right.left hjhome.symm
        have hjhigh : j ∉ high := by
          intro hjhigh
          rw [h.highHome j hjhigh, hfacts.right.right] at hjhome
          have hlt := h.home_lt i
          omega
        have hjfacts := h.other hj hjlow hjhigh
        exact ⟨hjfacts.left, hjfacts.right.right.symm⟩
      · intro j hj hjhome
        rw [hfacts.right.right] at hjhome
        have hjpath : ¬ (j = records ∨ j ∈ path) := by
          rintro (hjlast | hjpath)
          · have hlt := Finset.mem_range.mp hj
            omega
          · rw [(h.path_home hjpath).right] at hjhome
            exact hfacts.right.left hjhome.symm
        have hjout := (h.mem_slots j).not.mpr hjpath
        have hjlow : j ∉ low := fun hmem => hjout (Or.inl hmem)
        have hjhigh : j ∉ high := fun hmem => hjout (Or.inr (Or.inl hmem))
        have hjlive : j ∈ (Finset.range (records + 1)).erase empty := by
          refine Finset.mem_erase.mpr ⟨fun heq => hjout (Or.inr (Or.inr heq)), ?_⟩
          exact Finset.mem_range.mpr (Nat.lt_succ_of_lt (Finset.mem_range.mp hj))
        refine ⟨hjlive, (h.other hjlive hjlow hjhigh).right.right, ?_⟩
        unfold nextOf
        rw [h.same j hjlow hjhigh]

theorem contents (h : Dealt hashnr blength records data data' path low high empty)
    (hmoved : ((low.map fun i => (data' i).data) ++
      (high.map fun i => (data' i).data)).Perm (path.map fun i => (data i).data)) :
    contentsOf ((Finset.range (records + 1)).erase empty) data' =
      contentsOf (Finset.range records) data := by
  have hslotsNodup := h.slots_nodup
  have hnodup := h.nodup
  have hlive : forall i, i ∈ path -> i < records := fun i hi => (h.path_home hi).left
  have hfront : (low ++ high).Nodup := by
    rw [← List.append_assoc] at hslotsNodup
    exact hslotsNodup.of_append_left
  have hafter : (Finset.range (records + 1)).erase empty =
      (low ++ high).toFinset ∪ (Finset.range records \ path.toFinset) := by
    ext i
    have hi := h.mem_slots i
    simp only [Finset.mem_erase, Finset.mem_range, Finset.mem_union, List.mem_toFinset,
      List.mem_append, Finset.mem_sdiff]
    grind
  have hbefore : Finset.range records =
      path.toFinset ∪ (Finset.range records \ path.toFinset) := by
    ext i
    simp only [Finset.mem_range, Finset.mem_union, List.mem_toFinset, Finset.mem_sdiff]
    grind
  have hdisjoint : Disjoint (low ++ high).toFinset
      (Finset.range records \ path.toFinset) := by
    rw [Finset.disjoint_left]
    intro i hi hout
    have hin := h.mem_slots i
    simp only [List.mem_toFinset, List.mem_append] at hi
    simp only [Finset.mem_sdiff, Finset.mem_range, List.mem_toFinset] at hout
    grind
  have hothers : contentsOf (Finset.range records \ path.toFinset) data' =
      contentsOf (Finset.range records \ path.toFinset) data := by
    apply contentsOf_congr
    intro i hi
    have hin := h.mem_slots i
    simp only [Finset.mem_sdiff, Finset.mem_range, List.mem_toFinset] at hi
    rw [h.same i (by grind) (by grind)]
  have hpaths : contentsOf (low ++ high).toFinset data' =
      contentsOf path.toFinset data := by
    rw [contentsOf_toFinset hfront, contentsOf_toFinset (List.nodup_cons.mp hnodup).right,
      List.map_append]
    exact Multiset.coe_eq_coe.mpr hmoved
  rw [hafter, contentsOf_disjUnion hdisjoint, hothers, hpaths]
  rw [← contentsOf_disjUnion Finset.disjoint_sdiff, ← hbefore]

end Dealt

theorem Splitting.start {path : List Nat} {first : Nat} (halfbuff : Nat)
    (hpath : Segment (nextOf data) first path NO_RECORD) :
    Splitting hashnr halfbuff first records data path first path [] [] [] []
      { data := data, flag := SplitFlag.zero, empty := records, gpos := 0,
        ptrToRec := NULL, gpos2 := 0, ptrToRec2 := NULL } := by
  refine ⟨List.Perm.refl _, ?_, ?_, List.Perm.refl _, by simp, by simp,
    fun _ _ _ => rfl, hpath, fun _ => rfl, by simp [SplitFlag.zero],
    fun _ _ => rfl, by simp [SplitFlag.zero]⟩
  · exact ⟨fun _ => ⟨rfl, rfl, rfl⟩, by simp [SplitFlag.zero], by simp [SplitFlag.zero]⟩
  · exact ⟨fun _ => ⟨rfl, rfl, rfl⟩, by simp [SplitFlag.zero], by simp [SplitFlag.zero]⟩

/-- The bucket has records: the loop deals its chain out. -/
theorem splitLoop_spec (hsize : TableSize blength records) (hpos : 0 < records)
    (hrecords : records < 2 ^ 31)
    (hlinked : Linked hashnr blength records data (Finset.range records))
    (hown : homeOf hashnr blength records data (records - blength / 2) =
      records - blength / 2) :
    exists s path low high,
      splitLoop hashnr blength records (blength >>> 1) (records - blength / 2)
          (records + 1) (records - blength / 2)
          { data := data, flag := SplitFlag.zero, empty := records, gpos := 0,
            ptrToRec := NULL, gpos2 := 0, ptrToRec2 := NULL } = some s ∧
        Dealt hashnr blength records data (splitFinish s) path low high s.empty ∧
        ((low.map fun i => (splitFinish s i).data) ++
          (high.map fun i => (splitFinish s i).data)).Perm
            (path.map fun i => (data i).data) := by
  have hhalf := hsize.half_pos hpos
  have hmem : records - blength / 2 ∈ Finset.range records :=
    Finset.mem_range.mpr (by omega)
  rcases Chained.chain_of_head hlinked hmem hown with ⟨tail, hpath⟩
  have hnil : NO_RECORD ∉ Finset.range records := by
    rw [Finset.mem_range, NO_RECORD]
    omega
  generalize hwhole : (records - blength / 2) :: tail = path at hpath
  have hpathNe : path ≠ [] := by
    rw [← hwhole]
    exact List.cons_ne_nil _ _
  have hlive : forall i, i ∈ path -> i < records := fun i hi =>
    Finset.mem_range.mp ((hpath.mem_iff i).mp hi).left
  have hnodup : (records :: path).Nodup :=
    List.nodup_cons.mpr
      ⟨fun h => Nat.lt_irrefl records (hlive records h), hpath.nodup hnil⟩
  have hlength := hpath.length_le_card hnil
  rw [Finset.card_range] at hlength
  have hstart : Splitting hashnr (blength >>> 1) _ records _ _ _ _ _ _ _ _ _ :=
    Splitting.start (blength >>> 1) hpath.segment
  rcases hstart.loop blength records (records + 1) hpathNe hnodup
    (fun i hi => ⟨by have hlt := hlive i hi; unfold NO_RECORD; omega,
      ((hpath.mem_iff i).mp hi).right⟩)
    (Nat.le_succ_of_le hlength) with
    ⟨s, low, high, lowRecords, highRecords, hloop, hdone⟩
  rcases hdone.finish hnodup with ⟨hlowChain, hhighChain, hlowData, hhighData, hsame⟩
  have hrecordsPerm := hdone.records
  simp only [List.map_nil, List.append_nil] at hrecordsPerm
  have hbucket : forall record, record ∈ lowRecords ++ highRecords ->
      myHashMask (hashnr record) blength records = records - blength / 2 := by
    intro record hrecord
    rcases List.mem_map.mp (hrecordsPerm.mem_iff.mp hrecord) with ⟨i, hi, rfl⟩
    exact ((hpath.mem_iff i).mp hi).right
  refine ⟨s, path, low, high, hloop, ⟨hsize, hpos, hrecords, hpath, hnodup, hdone.slots,
    hlowChain, hhighChain, ?_, ?_, hsame⟩, ?_⟩
  · intro i hi
    have hrecord : (splitFinish s i).data ∈ lowRecords := by
      rw [← hlowData]
      exact List.mem_map.mpr ⟨i, hi, rfl⟩
    have hmask := myHashMask_succ_of_bit hsize hpos hrecords
      (hbucket _ (List.mem_append_left _ hrecord))
    exact hmask.trans (if_pos (hdone.staysLow _ hrecord))
  · intro i hi
    have hrecord : (splitFinish s i).data ∈ highRecords := by
      rw [← hhighData]
      exact List.mem_map.mpr ⟨i, hi, rfl⟩
    have hmask := myHashMask_succ_of_bit hsize hpos hrecords
      (hbucket _ (List.mem_append_right _ hrecord))
    exact hmask.trans (if_neg (hdone.goesHigh _ hrecord))
  · rw [hlowData, hhighData]
    exact hrecordsPerm

/-- The split of a nonempty table leaves one slot free and all records on the
chains of the table with one more slot. -/
theorem splitBucket_spec (hsize : TableSize blength records)
    (hrecords : records + 1 < 2 ^ 31)
    (hlinked : Linked hashnr blength records data (Finset.range records)) :
    exists data' empty,
      splitBucket hashnr blength records data records = some (data', empty) ∧
      OneFree hashnr blength (records + 1) data' empty ∧
      contentsOf ((Finset.range (records + 1)).erase empty) data' =
        contentsOf (Finset.range records) data := by
  have hhalfLe := hsize.half_le
  have hfirst : sizetSub records (blength >>> 1) = records - blength / 2 := by
    rw [Nat.shiftRight_one]
    exact sizetSub_of_le hhalfLe (by omega)
  unfold splitBucket
  simp only [hfirst]
  cases records with
  | zero =>
      refine ⟨data, 0, by simp, ?_, ?_⟩
      · apply oneFree_of_linked hsize hrecords (Nat.succ_pos 0)
        rw [range_succ_erase, Finset.range_zero]
        exact Chained.empty
      · rw [range_succ_erase]
  | succ n =>
      have hpos : 0 < n + 1 := Nat.succ_pos n
      have hhalfPos := hsize.half_pos hpos
      generalize n + 1 = records at *
      rw [if_pos (by simp; omega)]
      by_cases hown : homeOf hashnr blength records data (records - blength / 2) =
          records - blength / 2
      · rcases splitLoop_spec hsize hpos (by omega) hlinked hown with
          ⟨s, path, low, high, hloop, hdealt, hmoved⟩
        exact ⟨splitFinish s, s.empty, by rw [hloop]; rfl,
          oneFree_of_linked hsize hrecords hdealt.empty_lt (hdealt.linked hlinked),
          hdealt.contents hmoved⟩
      · -- the first slot belongs to another bucket, so this one is empty
        have hempty : forall i, i ∈ Finset.range records ->
            homeOf hashnr blength records data i ≠ records - blength / 2 := by
          intro i hi hhome
          apply hown
          have hhead := (Chained.home_mem hlinked hi).right
          rw [hhome] at hhead
          exact hhead
        refine ⟨data, records, ?_, ?_, by rw [range_succ_erase]⟩
        · unfold splitLoop
          simp only
          rw [if_pos ⟨trivial, hown⟩]
          rfl
        · apply oneFree_of_linked hsize hrecords (Nat.lt_succ_self records)
          rw [range_succ_erase]
          exact linked_of_empty_bucket hsize hpos (by omega) hlinked hempty

end DynHash
end MyLibs
