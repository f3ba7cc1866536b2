import MyLibs.DynHash.Insertion
import MyLibs.DynHash.Unlinking

/-!
# Giving up the last slot

After the record is unlinked, `my_hash_delete` has to empty the last slot and
the last bucket: its records fall back to the bucket half of `blength` below,
and the record of the last slot moves to the free one, or to the head of its
new bucket.
-/

namespace MyLibs
namespace DynHash

open Foundation

variable {hashnr : Ptr -> UInt32} {oldBlength blength records : Nat}
variable {data data' : Nat -> HashLink} {empty : Nat}

/-- What the end of `my_hash_delete` finds: `records + 1` slots, one of them
free, and the `blength` for one slot less. -/
structure Shrinking (hashnr : Ptr -> UInt32) (oldBlength blength records : Nat)
    (data : Nat -> HashLink) (empty : Nat) : Prop where
  bound : records + 1 < 2 ^ 31
  size : TableSize blength records
  mask : forall h, myHashMask h oldBlength (records + 1) =
    myHashMask h blength (records + 1)
  empty_lt : empty < records + 1
  linked : Linked hashnr oldBlength (records + 1) data
    ((Finset.range (records + 1)).erase empty)

namespace Shrinking

theorem nil_not_mem (h : Shrinking hashnr oldBlength blength records data empty) :
    NO_RECORD ∉ (Finset.range (records + 1)).erase empty := by
  have hbound := h.bound
  intro hmem
  have hlt := Finset.mem_range.mp (Finset.mem_of_mem_erase hmem)
  unfold NO_RECORD at hlt
  omega

theorem home (h : Shrinking hashnr oldBlength blength records data empty)
    (hpos : 0 < records) (d : Nat -> HashLink) (i : Nat) :
    (homeOf hashnr oldBlength (records + 1) d i ≠ records ∧
      homeOf hashnr blength records d i =
        homeOf hashnr oldBlength (records + 1) d i) ∨
    (homeOf hashnr oldBlength (records + 1) d i = records ∧
      homeOf hashnr blength records d i = records - blength / 2) := by
  have hbound := h.bound
  have hlt : homeOf hashnr blength records d i < records :=
    myHashMask_lt h.size hpos (by omega)
  have hold : homeOf hashnr oldBlength (records + 1) d i =
      myHashMask (hashnr (d i).data) blength (records + 1) := h.mask _
  rcases myHashMask_succ (hashnr (d i).data) h.size hpos (by omega) with
    hsame | ⟨hlast, hfallback⟩
  · left
    have heq := hold.trans hsame
    refine ⟨?_, heq.symm⟩
    rw [heq]
    exact Nat.ne_of_lt hlt
  · exact Or.inr ⟨hold.trans hlast, hfallback⟩

theorem home_of_last (h : Shrinking hashnr oldBlength blength records data empty)
    (hpos : 0 < records) {d : Nat -> HashLink} {i : Nat}
    (hlast : homeOf hashnr oldBlength (records + 1) d i = records) :
    homeOf hashnr blength records d i = records - blength / 2 := by
  rcases h.home hpos d i with ⟨hnot, _⟩ | ⟨_, hfallback⟩
  · exact absurd hlast hnot
  · exact hfallback

theorem home_of_other (h : Shrinking hashnr oldBlength blength records data empty)
    (hpos : 0 < records) {d : Nat -> HashLink} {i : Nat}
    (hother : homeOf hashnr oldBlength (records + 1) d i ≠ records) :
    homeOf hashnr blength records d i = homeOf hashnr oldBlength (records + 1) d i := by
  rcases h.home hpos d i with ⟨_, hkept⟩ | ⟨hlast, _⟩
  · exact hkept
  · exact absurd hlast hother

theorem last_of_moved (h : Shrinking hashnr oldBlength blength records data empty)
    (hpos : 0 < records) {d : Nat -> HashLink} {i pos : Nat}
    (hhome : homeOf hashnr blength records d i = pos)
    (hmoved : homeOf hashnr oldBlength (records + 1) d i ≠ pos) :
    homeOf hashnr oldBlength (records + 1) d i = records ∧ records - blength / 2 = pos := by
  rcases h.home hpos d i with ⟨_, hkept⟩ | ⟨hlast, hfallback⟩
  · exact absurd (hkept.symm.trans hhome) hmoved
  · exact ⟨hlast, hfallback.symm.trans hhome⟩

theorem home_lt (h : Shrinking hashnr oldBlength blength records data empty)
    (hpos : 0 < records) (d : Nat -> HashLink) (i : Nat) :
    homeOf hashnr blength records d i < records := by
  have hbound := h.bound
  exact myHashMask_lt h.size hpos (by omega)

theorem settle (h : Shrinking hashnr oldBlength blength records data empty)
    (hpos : 0 < records)
    (hlinked : Chained NO_RECORD (nextOf data')
      (homeOf hashnr oldBlength (records + 1) data') (Finset.range records)) :
    Linked hashnr blength records data' (Finset.range records) := by
  refine Chained.congr hlinked ?_ (fun _ _ => rfl)
  intro i hi
  apply h.home_of_other hpos
  intro hlast
  have hhead := (hlinked.home_mem hi).left
  rw [hlast] at hhead
  exact absurd hhead Finset.notMem_range_self

theorem mem_live (_h : Shrinking hashnr oldBlength blength records data empty)
    {i : Nat} (hi : i < records + 1) (hne : i ≠ empty) :
    i ∈ (Finset.range (records + 1)).erase empty :=
  Finset.mem_erase.mpr ⟨hne, Finset.mem_range.mpr hi⟩

theorem exchange_last (h : Shrinking hashnr oldBlength blength records data empty)
    (hne : empty ≠ records) :
    insert empty (((Finset.range (records + 1)).erase empty).erase records) =
      Finset.range records := by
  have hlt := h.empty_lt
  rw [Finset.erase_right_comm, range_succ_erase]
  exact Finset.insert_erase (Finset.mem_range.mpr (by omega))

theorem card_le (_h : Shrinking hashnr oldBlength blength records data empty) :
    ((Finset.range (records + 1)).erase empty).card <= records + 1 :=
  Nat.le_trans (Finset.card_erase_le) (Nat.le_of_eq (Finset.card_range _))

theorem contents_move (h : Shrinking hashnr oldBlength blength records data empty)
    (hne : empty ≠ records) (hnew : (data' empty).data = (data records).data)
    (hsame : forall i, i ≠ empty -> i ≠ records -> (data' i).data = (data i).data) :
    contentsOf (Finset.range records) data' =
      contentsOf ((Finset.range (records + 1)).erase empty) data := by
  have hmove := contentsOf_move (h.mem_live (Nat.lt_succ_self records) (Ne.symm hne))
    (Finset.notMem_erase empty _) hnew
    (fun i hi hilast => hsame i (Finset.ne_of_mem_erase hi) hilast)
  rw [h.exchange_last hne] at hmove
  exact hmove

/-- The last slot holds a record of the bucket whose slot is free. -/
theorem intoFree (h : Shrinking hashnr oldBlength blength records data empty)
    (hpos : 0 < records) (hne : empty ≠ records)
    (hhome : homeOf hashnr blength records data records = empty)
    (hnew : data' empty = data records)
    (hsame : forall i, i ≠ empty -> i ≠ records -> data' i = data i) :
    Linked hashnr blength records data' (Finset.range records) := by
  have hlast := h.mem_live (Nat.lt_succ_self records) (Ne.symm hne)
  have hfree : empty ∉ (Finset.range (records + 1)).erase empty :=
    Finset.notMem_erase empty _
  -- the record was the head of the last bucket, as bucket `empty` has no head
  have hbucket : homeOf hashnr oldBlength (records + 1) data records = records ∧
      records - blength / 2 = empty := by
    apply h.last_of_moved hpos hhome
    intro hold
    have hhead := (Chained.home_mem h.linked hlast).left
    rw [hold] at hhead
    exact absurd hhead hfree
  rw [← h.exchange_last hne]
  refine Chained.renameHead h.linked h.nil_not_mem hlast hbucket.left hfree
    ?_ ?_ ?_ ?_ ?_
  · unfold nextOf
    rw [hnew]
  · unfold homeOf
    rw [hnew]
    exact hhome
  · intro i hi hilast hihome
    have hdata := hsame i (Finset.ne_of_mem_erase hi) hilast
    unfold homeOf at hihome ⊢
    rw [hdata]
    exact (h.home_of_last hpos hihome).trans hbucket.right
  · intro i hi hihome
    have hilast : i ≠ records := by
      rintro rfl
      exact hihome hbucket.left
    have hdata := hsame i (Finset.ne_of_mem_erase hi) hilast
    unfold homeOf
    rw [hdata]
    exact h.home_of_other hpos hihome
  · intro i hi hilast
    unfold nextOf
    rw [hsame i (Finset.ne_of_mem_erase hi) hilast]

/-- The last slot holds a record of a bucket whose slot is taken by a record of a
third bucket, which moves to the free slot. -/
theorem takeSlot (h : Shrinking hashnr oldBlength blength records data empty)
    (hpos : 0 < records) (hne : empty ≠ records) {pos p : Nat}
    (hposne : pos ≠ empty)
    (hhome : homeOf hashnr blength records data records = pos)
    (hforeign : homeOf hashnr blength records data pos ≠ pos)
    (hp : p ∈ (Finset.range (records + 1)).erase empty) (hppos : p ≠ pos)
    (hlink : nextOf data p = pos)
    (hpred : data' p = { data p with next := empty })
    (hnew : data' empty = data pos) (htaken : data' pos = data records)
    (hsame : forall i, i ≠ empty -> i ≠ pos -> i ≠ p -> data' i = data i) :
    Linked hashnr blength records data' (Finset.range records) := by
  have hposLt : pos < records := by
    rw [← hhome]
    exact h.home_lt hpos data records
  have hlast := h.mem_live (Nat.lt_succ_self records) (Ne.symm hne)
  have hposLive := h.mem_live (Nat.lt_succ_of_lt hposLt) hposne
  have hposnil : pos ≠ NO_RECORD := fun hnil => h.nil_not_mem (hnil ▸ hposLive)
  -- bucket `pos` was empty, so the last record comes from the last bucket
  have hbucket : homeOf hashnr oldBlength (records + 1) data records = records ∧
      records - blength / 2 = pos := by
    apply h.last_of_moved hpos hhome
    intro hold
    have hhead := (Chained.home_mem h.linked hlast).right
    rw [hold] at hhead
    have hkept := h.home_of_other hpos (by rw [hhead]; exact Nat.ne_of_lt hposLt)
    exact absurd (hkept.trans hhead) hforeign
  have hplast : p ≠ records := by
    rintro rfl
    have hnext := (Chained.home_of_next h.linked hp (by rw [hlink]; exact hposnil)).right
    rw [hlink, hbucket.left] at hnext
    exact hforeign ((h.home_of_last hpos hnext).trans hbucket.right)
  have hlastSame : data' records = data records :=
    hsame records (Ne.symm hne) (Nat.ne_of_gt hposLt) (Ne.symm hplast)
  have hmoved : Chained NO_RECORD (nextOf data')
      (homeOf hashnr oldBlength (records + 1) data')
      (insert empty (((Finset.range (records + 1)).erase empty).erase pos)) := by
    refine Chained.displace h.linked h.nil_not_mem hp hlink hposnil ?_ ?_ ?_ ?_ ?_
    · unfold nextOf
      rw [hpred]
    · unfold nextOf
      rw [hnew]
    · unfold homeOf
      rw [hnew]
    · intro i hi hipos
      unfold homeOf
      by_cases hip : i = p
      · rw [hip, hpred]
      · rw [hsame i (Finset.ne_of_mem_erase hi) hipos hip]
    · intro i hi hipos hip
      unfold nextOf
      rw [hsame i (Finset.ne_of_mem_erase hi) hipos hip]
  have hset : insert pos ((insert empty
      (((Finset.range (records + 1)).erase empty).erase pos)).erase records) =
        Finset.range records := by
    rw [← h.exchange_last hne]
    ext i
    simp only [Finset.mem_insert, Finset.mem_erase, Finset.mem_range]
    omega
  have hnil : NO_RECORD ∉
      insert empty (((Finset.range (records + 1)).erase empty).erase pos) := by
    have hbound := h.bound
    have hemptyLt := h.empty_lt
    rw [Finset.mem_insert]
    rintro (heq | hmem)
    · unfold NO_RECORD at heq
      omega
    · exact h.nil_not_mem (Finset.mem_of_mem_erase hmem)
  rw [← hset]
  refine Chained.renameHead hmoved hnil ?_ ?_ ?_ ?_ ?_ ?_ ?_ (fun _ _ _ => rfl)
  · exact Finset.mem_insert_of_mem
      (Finset.mem_erase.mpr ⟨Nat.ne_of_gt hposLt, hlast⟩)
  · unfold homeOf
    rw [hlastSame]
    exact hbucket.left
  · rw [Finset.mem_insert]
    rintro (heq | hmem)
    · exact hposne heq
    · exact Finset.notMem_erase pos _ hmem
  · unfold nextOf
    rw [htaken, hlastSame]
  · unfold homeOf
    rw [htaken]
    exact hhome
  · intro i _hi _hilast hihome
    exact (h.home_of_last hpos hihome).trans hbucket.right
  · intro i _hi hihome
    exact h.home_of_other hpos hihome

theorem contents_takeSlot
    (h : Shrinking hashnr oldBlength blength records data empty)
    (hne : empty ≠ records) {pos : Nat} (hposLt : pos < records)
    (hposne : pos ≠ empty) (hnew : (data' empty).data = (data pos).data)
    (htaken : (data' pos).data = (data records).data)
    (hsame : forall i, i ≠ empty -> i ≠ pos -> (data' i).data = (data i).data) :
    contentsOf (Finset.range records) data' =
      contentsOf ((Finset.range (records + 1)).erase empty) data := by
  have hlast := h.mem_live (Nat.lt_succ_self records) (Ne.symm hne)
  have hposLive := h.mem_live (Nat.lt_succ_of_lt hposLt) hposne
  have hdisplaced := contentsOf_displace
    (Finset.mem_erase.mpr ⟨Nat.ne_of_lt hposLt, hposLive⟩)
    (fun hmem => Finset.notMem_erase empty _ (Finset.mem_of_mem_erase hmem)) hnew
    (fun i hi hipos => hsame i
      (Finset.ne_of_mem_erase (Finset.mem_of_mem_erase hi)) hipos)
  rw [h.exchange_last hne, htaken, ← contentsOf_erase hlast] at hdisplaced
  exact hdisplaced

/-- The last slot holds a record of a bucket that stays, behind its head. -/
theorem moveInner (h : Shrinking hashnr oldBlength blength records data empty)
    (hpos : 0 < records) (hne : empty ≠ records) {p : Nat}
    (hp : p ∈ (Finset.range (records + 1)).erase empty)
    (hlink : nextOf data p = records)
    (hpred : data' p = { data p with next := empty })
    (hnew : data' empty = data records)
    (hsame : forall i, i ≠ empty -> i ≠ p -> data' i = data i) :
    Linked hashnr blength records data' (Finset.range records) := by
  have hlast := h.mem_live (Nat.lt_succ_self records) (Ne.symm hne)
  have hlastnil : records ≠ NO_RECORD := fun hnil => h.nil_not_mem (hnil ▸ hlast)
  apply h.settle hpos
  rw [← h.exchange_last hne]
  refine Chained.displace h.linked h.nil_not_mem hp hlink hlastnil ?_ ?_ ?_ ?_ ?_
  · unfold nextOf
    rw [hpred]
  · unfold nextOf
    rw [hnew]
  · unfold homeOf
    rw [hnew]
  · intro i hi _hilast
    unfold homeOf
    by_cases hip : i = p
    · rw [hip, hpred]
    · rw [hsame i (Finset.ne_of_mem_erase hi) hip]
  · intro i hi _hilast hip
    unfold nextOf
    rw [hsame i (Finset.ne_of_mem_erase hi) hip]

/-!
## Merging the last bucket

The head of the last bucket moves to the free slot first, as if that were its
bucket, and then both chains become one.
-/

def parked (hashnr : Ptr -> UInt32) (oldBlength records empty : Nat)
    (data : Nat -> HashLink) (i : Nat) : Nat :=
  if homeOf hashnr oldBlength (records + 1) data i = records then empty
  else homeOf hashnr oldBlength (records + 1) data i

theorem park (h : Shrinking hashnr oldBlength blength records data empty)
    (hne : empty ≠ records)
    (hhead : homeOf hashnr oldBlength (records + 1) data records = records)
    (hnew : data' empty = data records)
    (hsame : forall i, i ≠ empty -> data' i = data i) :
    Chained NO_RECORD (nextOf data')
        (parked hashnr oldBlength records empty data') (Finset.range records) ∧
      parked hashnr oldBlength records empty data' empty = empty ∧
      forall i, i ∈ Finset.range records ->
        parked hashnr oldBlength records empty data' i = empty ->
        homeOf hashnr oldBlength (records + 1) data' i = records := by
  have hlast := h.mem_live (Nat.lt_succ_self records) (Ne.symm hne)
  have hfree : empty ∉ (Finset.range (records + 1)).erase empty :=
    Finset.notMem_erase empty _
  have hhome : forall i, i ∈ (Finset.range (records + 1)).erase empty ->
      homeOf hashnr oldBlength (records + 1) data' i =
        homeOf hashnr oldBlength (records + 1) data i := by
    intro i hi
    unfold homeOf
    rw [hsame i (Finset.ne_of_mem_erase hi)]
  have hemptyHome : homeOf hashnr oldBlength (records + 1) data' empty = records := by
    unfold homeOf
    rw [hnew]
    exact hhead
  have hparkedEmpty : parked hashnr oldBlength records empty data' empty = empty := by
    unfold parked
    rw [if_pos hemptyHome]
  refine ⟨?_, hparkedEmpty, ?_⟩
  · rw [← h.exchange_last hne]
    refine Chained.renameHead h.linked h.nil_not_mem hlast hhead hfree ?_
      hparkedEmpty ?_ ?_ ?_
    · unfold nextOf
      rw [hnew]
    · intro i hi _hilast hihome
      unfold parked
      rw [hhome i hi, if_pos hihome]
    · intro i hi hihome
      unfold parked
      rw [hhome i hi, if_neg hihome]
    · intro i hi _hilast
      unfold nextOf
      rw [hsame i (Finset.ne_of_mem_erase hi)]
  · intro i hi hiparked
    by_cases hie : i = empty
    · rw [hie]
      exact hemptyHome
    · unfold parked at hiparked
      split at hiparked
      · assumption
      · have hilive := h.mem_live (Nat.lt_succ_of_lt (Finset.mem_range.mp hi)) hie
        rw [hhome i hilive] at hiparked
        have hheadMem := (Chained.home_mem h.linked hilive).left
        rw [hiparked] at hheadMem
        exact absurd hheadMem hfree

/-- The last bucket is parked at the slot `empty`, and its records belong to the
bucket `pos` now. -/
structure Merging (hashnr : Ptr -> UInt32) (oldBlength blength records empty pos : Nat)
    (data : Nat -> HashLink) : Prop where
  bound : records < 2 ^ 31
  chained : Chained NO_RECORD (nextOf data) (parked hashnr oldBlength records empty data)
    (Finset.range records)
  head : parked hashnr oldBlength records empty data empty = empty
  empty_mem : empty ∈ Finset.range records
  pos_mem : pos ∈ Finset.range records
  pos_ne : pos ≠ empty
  own : homeOf hashnr blength records data pos = pos
  moved : forall i, i ∈ Finset.range records ->
    parked hashnr oldBlength records empty data i = empty ->
    homeOf hashnr blength records data i = pos
  kept : forall i, i ∈ Finset.range records ->
    parked hashnr oldBlength records empty data i ≠ empty ->
    homeOf hashnr blength records data i = parked hashnr oldBlength records empty data i

theorem linkBehind_data (data : Nat -> HashLink) (p pos next empty i : Nat) :
    (Function.update (Function.update data p { data p with next := next }) pos
      { Function.update data p { data p with next := next } pos with
        next := empty } i).data = (data i).data := by
  by_cases hipos : i = pos <;> by_cases hip : i = p <;> by_cases hppos : p = pos <;>
    simp_all [Function.update_apply]

theorem homeOf_congr {d : Nat -> HashLink} {i : Nat} (h : (d i).data = (data i).data) :
    homeOf hashnr blength records d i = homeOf hashnr blength records data i := by
  unfold homeOf
  rw [h]

namespace Merging

variable {pos : Nat}

theorem nil_not_mem (h : Merging hashnr oldBlength blength records empty pos data) :
    NO_RECORD ∉ Finset.range records := by
  have hbound := h.bound
  rw [Finset.mem_range, NO_RECORD]
  omega

theorem card_le (_h : Merging hashnr oldBlength blength records empty pos data) :
    (Finset.range records).card <= records + 1 := by
  rw [Finset.card_range]
  exact Nat.le_succ records

theorem front (h : Merging hashnr oldBlength blength records empty pos data)
    (hparked : parked hashnr oldBlength records empty data pos = empty) :
    exists data', moveLastpos.linkBehindLast records empty pos pos data = some data' ∧
      Linked hashnr blength records data' (Finset.range records) ∧
      forall i, (data' i).data = (data i).data := by
  have hnil := h.nil_not_mem
  rcases movelink_pred h.chained hnil (data pos).next data h.pos_mem
    (by rw [hparked]; exact Ne.symm h.pos_ne) h.card_le (fun _ _ _ => rfl) with
    ⟨p, hp, hppos, hlink, hmove⟩
  rw [hparked] at hmove
  unfold moveLastpos.linkBehindLast
  rw [hmove]
  have hdata := linkBehind_data data p pos (data pos).next empty
  refine ⟨_, rfl, ?_, hdata⟩
  have hposnil : pos ≠ NO_RECORD := fun hpn => hnil (hpn ▸ h.pos_mem)
  have hunlinked : Chained NO_RECORD
      (nextOf (Function.update
        (Function.update data p { data p with next := (data pos).next }) pos
        { Function.update data p { data p with next := (data pos).next } pos with
          next := empty }))
      (parked hashnr oldBlength records empty data)
      ((Finset.range records).erase pos) := by
    refine Chained.unlinkAfter h.chained hnil hp hlink hposnil ?_ (fun _ _ _ => rfl) ?_
    · simp [nextOf, hppos]
    · intro i _hi hipos hip
      simp [nextOf, hipos, hip]
  have hset : insert pos ((Finset.range records).erase pos) = Finset.range records :=
    Finset.insert_erase h.pos_mem
  unfold Linked
  rw [← hset]
  refine Chained.pushFront hunlinked
    (Finset.mem_erase.mpr ⟨Ne.symm h.pos_ne, h.empty_mem⟩) h.head
    (Finset.notMem_erase pos _) (by simp [nextOf])
    ((homeOf_congr (hdata pos)).trans h.own) ?_ ?_ (fun _ _ => rfl)
  · intro i hi hiparked
    rw [homeOf_congr (hdata i)]
    exact h.moved i (Finset.mem_of_mem_erase hi) hiparked
  · intro i hi hiparked
    rw [homeOf_congr (hdata i)]
    exact h.kept i (Finset.mem_of_mem_erase hi) hiparked

theorem behind (h : Merging hashnr oldBlength blength records empty pos data)
    (hparked : parked hashnr oldBlength records empty data pos = pos) :
    exists data', moveLastpos.linkBehindLast records empty NO_RECORD pos data =
        some data' ∧
      Linked hashnr blength records data' (Finset.range records) ∧
      forall i, (data' i).data = (data i).data := by
  have hnil := h.nil_not_mem
  rcases movelink_last h.chained hnil (data pos).next h.empty_mem h.head h.card_le with
    ⟨q, hq, hqhome, hqlast, hmove⟩
  unfold moveLastpos.linkBehindLast
  rw [hmove]
  have hqpos : q ≠ pos := by
    rintro rfl
    exact h.pos_ne (hparked.symm.trans hqhome)
  have hdata := linkBehind_data data q pos (data pos).next empty
  refine ⟨_, rfl, ?_, hdata⟩
  refine Chained.spliceSecond h.chained hnil h.empty_mem h.head h.pos_mem hparked
    (Ne.symm h.pos_ne) hq hqhome hqlast (by simp [nextOf]) (by simp [nextOf, hqpos])
    ?_ ?_ ?_
  · intro i hi hiparked
    rw [homeOf_congr (hdata i)]
    exact h.moved i hi hiparked
  · intro i hi hiparked
    rw [homeOf_congr (hdata i)]
    exact h.kept i hi hiparked
  · intro i _hi hipos hiq
    simp [nextOf, hipos, hiq]

end Merging

/-- The head of the last bucket was copied to the free slot, and its records fall
back to `pos`. -/
theorem merging (h : Shrinking hashnr oldBlength blength records data empty)
    (hpos : 0 < records) (hne : empty ≠ records) {pos : Nat}
    (hposne : pos ≠ empty) (hposLt : pos < records)
    (hbucket : pos = records - blength / 2)
    (hhead : homeOf hashnr oldBlength (records + 1) data records = records)
    (hown : homeOf hashnr blength records data pos = pos)
    (hnew : data' empty = data records)
    (hsame : forall i, i ≠ empty -> data' i = data i) :
    Merging hashnr oldBlength blength records empty pos data' := by
  have hbound := h.bound
  have hemptyLt := h.empty_lt
  rcases h.park hne hhead hnew hsame with ⟨hparked, hemptyHome, hmembers⟩
  refine ⟨by omega, hparked, hemptyHome, Finset.mem_range.mpr (by omega),
    Finset.mem_range.mpr hposLt, hposne, ?_, ?_, ?_⟩
  · unfold homeOf
    rw [hsame pos hposne]
    exact hown
  · intro i hi hiparked
    exact (h.home_of_last hpos (hmembers i hi hiparked)).trans hbucket.symm
  · intro i _hi hiparked
    have hinot : homeOf hashnr oldBlength (records + 1) data' i ≠ records := by
      intro hilast
      apply hiparked
      unfold parked
      rw [if_pos hilast]
    unfold parked
    rw [if_neg hinot, h.home_of_other hpos hinot]

theorem linkBehindLast_spec
    (h : Shrinking hashnr oldBlength blength records data empty)
    (hpos : 0 < records) (hne : empty ≠ records) {pos : Nat}
    (hposne : pos ≠ empty) (hposLt : pos < records)
    (hbucket : pos = records - blength / 2)
    (hhead : homeOf hashnr oldBlength (records + 1) data records = records)
    (hown : homeOf hashnr blength records data pos = pos) :
    exists data', moveLastpos.linkBehindLast records empty
        (if homeOf hashnr oldBlength (records + 1) data pos = records then pos
          else NO_RECORD)
        pos (Function.update data empty (data records)) = some data' ∧
      Linked hashnr blength records data' (Finset.range records) ∧
      contentsOf (Finset.range records) data' =
        contentsOf ((Finset.range (records + 1)).erase empty) data := by
  generalize hdata₁ : Function.update data empty (data records) = data₁
  have hfirst : data₁ empty = data records := by rw [← hdata₁, Function.update_self]
  have hothers : forall i, i ≠ empty -> data₁ i = data i := by
    intro i hi
    rw [← hdata₁, Function.update_of_ne hi]
  have hmerging := h.merging hpos hne hposne hposLt hbucket hhead hown hfirst hothers
  have hcontents : forall d : Nat -> HashLink,
      (forall i, (d i).data = (data₁ i).data) ->
      contentsOf (Finset.range records) d =
        contentsOf ((Finset.range (records + 1)).erase empty) data := by
    intro d hd
    apply h.contents_move hne
    · rw [hd, hfirst]
    · intro i hi _hilast
      rw [hd, hothers i hi]
  have hposHome : homeOf hashnr oldBlength (records + 1) data₁ pos =
      homeOf hashnr oldBlength (records + 1) data pos := by
    unfold homeOf
    rw [hothers pos hposne]
  by_cases hsame : homeOf hashnr oldBlength (records + 1) data pos = records
  · rw [if_pos hsame]
    have hposParked : parked hashnr oldBlength records empty data₁ pos = empty := by
      unfold parked
      rw [hposHome, if_pos hsame]
    rcases hmerging.front hposParked with ⟨data₂, hlast, hlinked, hdata⟩
    exact ⟨data₂, hlast, hlinked, hcontents data₂ hdata⟩
  · rw [if_neg hsame]
    have hposParked : parked hashnr oldBlength records empty data₁ pos = pos := by
      unfold parked
      rw [hposHome, if_neg hsame, ← h.home_of_other hpos hsame]
      exact hown
    rcases hmerging.behind hposParked with ⟨data₂, hlast, hlinked, hdata⟩
    exact ⟨data₂, hlast, hlinked, hcontents data₂ hdata⟩

theorem moveInner_spec (h : Shrinking hashnr oldBlength blength records data empty)
    (hpos : 0 < records) (hne : empty ≠ records) {pos : Nat} (hposLt : pos < records)
    (hhome : homeOf hashnr oldBlength (records + 1) data records = pos) :
    exists data', movelink records empty (records + 1)
        (Function.update data empty (data records)) pos = some data' ∧
      Linked hashnr blength records data' (Finset.range records) ∧
      contentsOf (Finset.range records) data' =
        contentsOf ((Finset.range (records + 1)).erase empty) data := by
  have hlast := h.mem_live (Nat.lt_succ_self records) (Ne.symm hne)
  have hkept : forall i, i ∈ (Finset.range (records + 1)).erase empty ->
      i ≠ records -> Function.update data empty (data records) i = data i :=
    fun i hi _ => Function.update_of_ne (Finset.ne_of_mem_erase hi) _ _
  rcases movelink_pred h.linked h.nil_not_mem empty _ hlast
    (by rw [hhome]; exact Nat.ne_of_lt hposLt) h.card_le hkept with
    ⟨p, hp, _hplast, hlink, hmove⟩
  rw [hhome] at hmove
  rw [hmove]
  have hpe := Finset.ne_of_mem_erase hp
  have hnew : Function.update (Function.update data empty (data records)) p
      { data p with next := empty } empty = data records := by
    rw [Function.update_of_ne (Ne.symm hpe), Function.update_self]
  have hothers : forall i, i ≠ empty -> i ≠ p ->
      Function.update (Function.update data empty (data records)) p
        { data p with next := empty } i = data i := by
    intro i hi hip
    rw [Function.update_of_ne hip, Function.update_of_ne hi]
  refine ⟨_, rfl, h.moveInner hpos hne hp hlink (by simp) hnew hothers,
    h.contents_move hne (by rw [hnew]) ?_⟩
  intro i hi _hilast
  by_cases hip : i = p
  · rw [hip, Function.update_self]
  · rw [hothers i hi hip]

theorem takeSlot_spec (h : Shrinking hashnr oldBlength blength records data empty)
    (hpos : 0 < records) (hne : empty ≠ records) {pos : Nat} (hposne : pos ≠ empty)
    (hhome : homeOf hashnr blength records data records = pos)
    (hforeign : homeOf hashnr blength records data pos ≠ pos) :
    exists data', movelink pos empty (records + 1)
        (Function.update (Function.update data empty (data pos)) pos (data records))
        (homeOf hashnr blength records data pos) = some data' ∧
      Linked hashnr blength records data' (Finset.range records) ∧
      contentsOf (Finset.range records) data' =
        contentsOf ((Finset.range (records + 1)).erase empty) data := by
  have hposLt : pos < records := by
    rw [← hhome]
    exact h.home_lt hpos data records
  have hlast := h.mem_live (Nat.lt_succ_self records) (Ne.symm hne)
  have hposLive := h.mem_live (Nat.lt_succ_of_lt hposLt) hposne
  have hposOld : homeOf hashnr oldBlength (records + 1) data pos =
      homeOf hashnr blength records data pos := by
    symm
    apply h.home_of_other hpos
    intro hposLast
    -- `pos` is no head then, and the last record comes from the last bucket, too
    have hbucket := h.last_of_moved hpos hhome (by
      intro hold
      have hhead := (Chained.home_mem h.linked hlast).right
      rw [hold, hposLast] at hhead
      omega)
    exact hforeign ((h.home_of_last hpos hposLast).trans hbucket.right)
  have hkept : forall i, i ∈ (Finset.range (records + 1)).erase empty ->
      i ≠ pos -> Function.update (Function.update data empty (data pos)) pos
        (data records) i = data i := by
    intro i hi hipos
    rw [Function.update_of_ne hipos,
      Function.update_of_ne (Finset.ne_of_mem_erase hi)]
  rcases movelink_pred h.linked h.nil_not_mem empty _ hposLive
    (by rw [hposOld]; exact hforeign) h.card_le hkept with
    ⟨p, hp, hppos, hlink, hmove⟩
  rw [hposOld] at hmove
  rw [hmove]
  have hpe := Finset.ne_of_mem_erase hp
  have hothers : forall i, i ≠ empty -> i ≠ pos -> i ≠ p ->
      Function.update (Function.update (Function.update data empty (data pos)) pos
        (data records)) p { data p with next := empty } i = data i := by
    intro i hi hipos hip
    rw [Function.update_of_ne hip, Function.update_of_ne hipos,
      Function.update_of_ne hi]
  have hnew : Function.update (Function.update (Function.update data empty
      (data pos)) pos (data records)) p { data p with next := empty } empty =
        data pos := by
    rw [Function.update_of_ne (Ne.symm hpe),
      Function.update_of_ne (Ne.symm hposne), Function.update_self]
  have htaken : Function.update (Function.update (Function.update data empty
      (data pos)) pos (data records)) p { data p with next := empty } pos =
        data records := by
    rw [Function.update_of_ne (Ne.symm hppos), Function.update_self]
  refine ⟨_, rfl, h.takeSlot hpos hne hposne hhome hforeign hp hppos
    hlink (by simp) hnew htaken hothers,
    h.contents_takeSlot hne hposLt hposne (by rw [hnew]) (by rw [htaken]) ?_⟩
  intro i hi hipos
  by_cases hip : i = p
  · rw [hip, Function.update_self]
  · rw [hothers i hi hipos hip]

end Shrinking

/-- Moving the record of the last slot leaves all records on the chains of the
smaller table. -/
theorem moveLastpos_spec
    (h : Shrinking hashnr oldBlength blength records data empty) :
    exists data', moveLastpos hashnr oldBlength blength records data empty = some data' ∧
      Linked hashnr blength records data' (Finset.range records) ∧
      contentsOf (Finset.range records) data' =
        contentsOf ((Finset.range (records + 1)).erase empty) data := by
  have hbound := h.bound
  have hemptyLt := h.empty_lt
  unfold moveLastpos
  by_cases hne : empty = records
  · -- the last slot itself is free
    have hset := range_succ_erase records
    have hlinked := h.linked
    rw [hne, hset] at hlinked
    rw [if_pos hne]
    refine ⟨data, rfl, ?_, by rw [hne, hset]⟩
    cases records with
    | zero => exact Chained.empty
    | succ n => exact h.settle (Nat.succ_pos n) hlinked
  · have hpos : 0 < records := by omega
    have hlast := h.mem_live (Nat.lt_succ_self records) (Ne.symm hne)
    have hposLt := h.home_lt hpos data records
    simp only [if_neg hne]
    show exists data', (if homeOf hashnr blength records data records = empty then _
      else _) = some data' ∧ _
    generalize hlastHome : homeOf hashnr blength records data records = pos at hposLt
    have hmask : myHashMask (hashnr (data records).data) blength records = pos :=
      hlastHome
    rw [hmask]
    have hupos : uint pos = pos := uint_of_lt (by omega)
    by_cases hempty : pos = empty
    · rw [if_pos hempty]
      have hothers : forall i, i ≠ empty ->
          Function.update data empty (data records) i = data i :=
        fun i hi => Function.update_of_ne hi _ _
      refine ⟨_, rfl, h.intoFree hpos hne (hlastHome.trans hempty) (by simp)
        (fun i hi _ => hothers i hi), h.contents_move hne (by simp) ?_⟩
      intro i hi _hilast
      rw [hothers i hi]
    · rw [if_neg hempty]
      show exists data', (if pos ≠ homeOf hashnr blength records data pos then _
        else _) = some data' ∧ _
      have hposLive := h.mem_live (Nat.lt_succ_of_lt hposLt) hempty
      by_cases hown : pos = homeOf hashnr blength records data pos
      · rw [if_neg (not_not.mpr hown), hupos]
        show exists data', (if homeOf hashnr oldBlength (records + 1) data records =
          homeOf hashnr oldBlength (records + 1) data pos then _ else _) =
            some data' ∧ _
        by_cases hinner :
            homeOf hashnr oldBlength (records + 1) data records = records
        · -- the last bucket disappears and its chain goes to `pos`
          have hbucket : pos = records - blength / 2 :=
            hlastHome.symm.trans (h.home_of_last hpos hinner)
          have hmerged := h.linkBehindLast_spec hpos hne hempty hposLt hbucket hinner
            hown.symm
          have hinnerMask : myHashMask (hashnr (data records).data) oldBlength
              (records + 1) = records := hinner
          by_cases hsame : homeOf hashnr oldBlength (records + 1) data pos = records
          · rw [if_pos hsame] at hmerged
            rw [if_pos (hinner.trans hsame.symm), if_neg (not_not.mpr hinnerMask)]
            exact hmerged
          · rw [if_neg hsame] at hmerged
            rw [if_neg (by rw [hinner]; exact Ne.symm hsame)]
            exact hmerged
        · -- the last slot is inside the chain of `pos`
          have hlastOld : homeOf hashnr oldBlength (records + 1) data records = pos :=
            (h.home_of_other hpos hinner).symm.trans hlastHome
          have hposOld : homeOf hashnr oldBlength (records + 1) data pos = pos := by
            have hhead := (Chained.home_mem h.linked hlast).right
            rw [hlastOld] at hhead
            exact hhead
          have hinnerMask : myHashMask (hashnr (data records).data) oldBlength
              (records + 1) ≠ records := hinner
          rw [if_pos (hlastOld.trans hposOld.symm), if_pos hinnerMask,
            uint_of_lt (show records < 2 ^ 32 by omega)]
          exact h.moveInner_spec hpos hne hposLt hlastOld
      · -- a record of a third bucket leaves `pos` for the free slot
        rw [if_pos hown, hupos]
        have hthird : myHashMask (hashnr (data pos).data) blength records < 2 ^ 32 := by
          have hlt := h.home_lt hpos data pos
          unfold homeOf at hlt
          omega
        have hlastSame : Function.update data empty (data pos) records =
            data records := Function.update_of_ne (Ne.symm hne) _ _
        rw [uint_of_lt hthird, hlastSame]
        exact h.takeSlot_spec hpos hne hempty hlastHome (Ne.symm hown)

end DynHash
end MyLibs
