import MyLibs.DynHash.Layout

/-!
# Putting a record into its bucket

The last part of `my_hash_insert` and of `my_hash_update`: all slots but one are
live, and the record goes into the slot of its bucket or right behind the head
of its chain. A record of another bucket found in that slot moves to the free
one.
-/

namespace MyLibs
namespace DynHash

open Foundation

variable {hashnr : Ptr -> UInt32} {blength size : Nat}
variable {data data' : Nat -> HashLink} {empty : Nat}

/-- What both operations have to find: every slot but `empty` on its chain. -/
structure OneFree (hashnr : Ptr -> UInt32) (blength size : Nat)
    (data : Nat -> HashLink) (empty : Nat) : Prop where
  bound : size < 2 ^ 31
  empty_lt : empty < size
  home_lt : forall record, myHashMask (hashnr record) blength size < size
  linked : Linked hashnr blength size data ((Finset.range size).erase empty)

namespace OneFree

theorem nil_not_mem (h : OneFree hashnr blength size data empty) :
    NO_RECORD ∉ (Finset.range size).erase empty := by
  have hbound := h.bound
  intro hmem
  have hlt := Finset.mem_range.mp (Finset.mem_of_mem_erase hmem)
  unfold NO_RECORD at hlt
  omega

theorem insert_empty (h : OneFree hashnr blength size data empty) :
    insert empty ((Finset.range size).erase empty) = Finset.range size :=
  Finset.insert_erase (Finset.mem_range.mpr h.empty_lt)

theorem mem_live {i : Nat} (hi : i < size) (hne : i ≠ empty) :
    i ∈ (Finset.range size).erase empty :=
  Finset.mem_erase.mpr ⟨hne, Finset.mem_range.mpr hi⟩

theorem card_le (_h : OneFree hashnr blength size data empty) :
    ((Finset.range size).erase empty).card <= size :=
  Nat.le_trans (Finset.card_erase_le) (Nat.le_of_eq (Finset.card_range size))

theorem contents_fill (h : OneFree hashnr blength size data empty)
    (hsame : forall i, i ≠ empty -> (data' i).data = (data i).data) :
    contentsOf (Finset.range size) data' =
      (data' empty).data ::ₘ contentsOf ((Finset.range size).erase empty) data := by
  rw [contentsOf_erase (Finset.mem_range.mpr h.empty_lt)]
  congr 1
  apply contentsOf_congr
  intro i hi
  exact hsame i (Finset.ne_of_mem_erase hi)

theorem contents_displace (h : OneFree hashnr blength size data empty) {pos : Nat}
    (hpos : pos < size) (hne : pos ≠ empty)
    (hnew : (data' empty).data = (data pos).data)
    (hsame : forall i, i ≠ empty -> i ≠ pos -> (data' i).data = (data i).data) :
    contentsOf (Finset.range size) data' =
      (data' pos).data ::ₘ contentsOf ((Finset.range size).erase empty) data := by
  have hdisplaced := contentsOf_displace (mem_live hpos hne)
    (Finset.notMem_erase empty _) hnew
    (fun i hi hipos => hsame i (Finset.ne_of_mem_erase hi) hipos)
  rw [h.insert_empty] at hdisplaced
  exact hdisplaced

theorem fill (h : OneFree hashnr blength size data empty)
    (hsame : forall i, i ≠ empty -> data' i = data i)
    (hnext : (data' empty).next = NO_RECORD)
    (hhome : homeOf hashnr blength size data' empty = empty) :
    Linked hashnr blength size data' (Finset.range size) := by
  have hkept : Linked hashnr blength size data' ((Finset.range size).erase empty) :=
    h.linked.congr fun i hi => hsame i (Finset.ne_of_mem_erase hi)
  rw [← h.insert_empty]
  exact Chained.place hkept (Finset.notMem_erase empty _) hnext hhome

theorem second (h : OneFree hashnr blength size data empty) {pos : Nat}
    (hpos : pos < size) (hne : pos ≠ empty)
    (hown : homeOf hashnr blength size data pos = pos)
    (hsame : forall i, i ≠ empty -> i ≠ pos -> data' i = data i)
    (hnextHead : (data' pos).next = empty)
    (hnextNew : (data' empty).next = (data pos).next)
    (hhomeHead : homeOf hashnr blength size data' pos = pos)
    (hhomeNew : homeOf hashnr blength size data' empty = pos) :
    Linked hashnr blength size data' (Finset.range size) := by
  rw [← h.insert_empty]
  refine Chained.insertSecond h.linked h.nil_not_mem (mem_live hpos hne) hown
    hnextHead hnextNew hhomeNew ?_ ?_
  · intro i hi
    by_cases hipos : i = pos
    · rw [hipos, hhomeHead, hown]
    · unfold homeOf
      rw [hsame i (Finset.ne_of_mem_erase hi) hipos]
  · intro i hi hipos
    unfold nextOf
    rw [hsame i (Finset.ne_of_mem_erase hi) hipos]

theorem takeOver (h : OneFree hashnr blength size data empty) {pos p : Nat}
    (hpos : pos < size) (hne : pos ≠ empty)
    (hp : p ∈ (Finset.range size).erase empty)
    (hlink : nextOf data p = pos)
    (hsame : forall i, i ≠ empty -> i ≠ pos -> i ≠ p -> data' i = data i)
    (hpred : data' p = { data p with next := empty })
    (hnew : data' empty = data pos)
    (hnext : (data' pos).next = NO_RECORD)
    (hhome : homeOf hashnr blength size data' pos = pos) :
    Linked hashnr blength size data' (Finset.range size) := by
  have hposnil : pos ≠ NO_RECORD := by
    intro hnil
    exact h.nil_not_mem (hnil ▸ mem_live hpos hne)
  have hmoved : Linked hashnr blength size data'
      (insert empty (((Finset.range size).erase empty).erase pos)) := by
    refine Chained.displace h.linked h.nil_not_mem hp hlink hposnil
      ?_ ?_ ?_ ?_ ?_
    · show (data' p).next = empty
      rw [hpred]
    · unfold nextOf
      rw [hnew]
    · unfold homeOf
      rw [hnew]
    · intro i hi hipos
      unfold homeOf
      by_cases hip : i = p
      · rw [hip, hpred]
      · rw [hsame i (Finset.ne_of_mem_erase hi) hipos hip]
    · intro i hi hipos hip
      unfold nextOf
      rw [hsame i (Finset.ne_of_mem_erase hi) hipos hip]
  have hfree : pos ∉ insert empty (((Finset.range size).erase empty).erase pos) := by
    rw [Finset.mem_insert]
    rintro (heq | hmem)
    · exact hne heq
    · exact Finset.notMem_erase pos _ hmem
  have hall := Chained.place hmoved hfree hnext hhome
  rw [Finset.insert_comm, Finset.insert_erase (mem_live hpos hne),
    h.insert_empty] at hall
  exact hall

theorem fill_spec (h : OneFree hashnr blength size data empty) {record : Ptr}
    (hhome : myHashMask (hashnr record) blength size = empty)
    (hnew : data' empty = { next := NO_RECORD, data := record })
    (hsame : forall i, i ≠ empty -> data' i = data i) :
    Linked hashnr blength size data' (Finset.range size) ∧
      contentsOf (Finset.range size) data' =
        record ::ₘ contentsOf ((Finset.range size).erase empty) data := by
  constructor
  · apply h.fill hsame
    · rw [hnew]
    · unfold homeOf
      rw [hnew]
      exact hhome
  · rw [h.contents_fill, hnew]
    intro i hi
    rw [hsame i hi]

theorem linkBefore_spec (h : OneFree hashnr blength size data empty) {record : Ptr}
    {pos : Nat} (hpos : myHashMask (hashnr record) blength size = pos)
    (hne : pos ≠ empty) (hown : homeOf hashnr blength size data pos = pos)
    (hhead : data' pos = { next := empty, data := record })
    (hnew : data' empty = data pos)
    (hsame : forall i, i ≠ empty -> i ≠ pos -> data' i = data i) :
    Linked hashnr blength size data' (Finset.range size) ∧
      contentsOf (Finset.range size) data' =
        record ::ₘ contentsOf ((Finset.range size).erase empty) data := by
  have hposLt : pos < size := by
    rw [← hpos]
    exact h.home_lt record
  constructor
  · apply h.second hposLt hne hown hsame
    · rw [hhead]
    · rw [hnew]
    · unfold homeOf
      rw [hhead]
      exact hpos
    · unfold homeOf
      rw [hnew]
      exact hown
  · rw [h.contents_displace hposLt hne, hhead]
    · rw [hnew]
    · intro i hi hipos
      rw [hsame i hi hipos]

theorem linkBehind_spec (h : OneFree hashnr blength size data empty) {record : Ptr}
    {pos : Nat} (hpos : myHashMask (hashnr record) blength size = pos)
    (hne : pos ≠ empty) (hown : homeOf hashnr blength size data pos = pos)
    (hhead : data' pos = { data pos with next := empty })
    (hnew : data' empty = { next := (data pos).next, data := record })
    (hsame : forall i, i ≠ empty -> i ≠ pos -> data' i = data i) :
    Linked hashnr blength size data' (Finset.range size) ∧
      contentsOf (Finset.range size) data' =
        record ::ₘ contentsOf ((Finset.range size).erase empty) data := by
  have hposLt : pos < size := by
    rw [← hpos]
    exact h.home_lt record
  constructor
  · apply h.second hposLt hne hown hsame
    · rw [hhead]
    · rw [hnew]
    · unfold homeOf
      rw [hhead]
      exact hown
    · unfold homeOf
      rw [hnew]
      exact hpos
  · rw [h.contents_fill, hnew]
    intro i hi
    by_cases hipos : i = pos
    · rw [hipos, hhead]
    · rw [hsame i hi hipos]

theorem takeOver_spec (h : OneFree hashnr blength size data empty) {record : Ptr}
    {pos p : Nat} (hpos : myHashMask (hashnr record) blength size = pos)
    (hne : pos ≠ empty) (hp : p ∈ (Finset.range size).erase empty)
    (hlink : nextOf data p = pos)
    (hhead : data' pos = { next := NO_RECORD, data := record })
    (hpred : data' p = { data p with next := empty })
    (hnew : data' empty = data pos)
    (hsame : forall i, i ≠ empty -> i ≠ pos -> i ≠ p -> data' i = data i) :
    Linked hashnr blength size data' (Finset.range size) ∧
      contentsOf (Finset.range size) data' =
        record ::ₘ contentsOf ((Finset.range size).erase empty) data := by
  have hposLt : pos < size := by
    rw [← hpos]
    exact h.home_lt record
  constructor
  · apply h.takeOver hposLt hne hp hlink hsame hpred hnew
    · rw [hhead]
    · unfold homeOf
      rw [hhead]
      exact hpos
  · rw [h.contents_displace hposLt hne, hhead]
    · rw [hnew]
    · intro i hi hipos
      by_cases hip : i = p
      · rw [hip, hpred]
      · rw [hsame i hi hipos hip]

end OneFree

/-!
## The two operations
-/

/-- Placing a new record: every slot is live, and the record is in one of them. -/
theorem placeRecord_spec {records : Nat} (record : Ptr)
    (h : OneFree hashnr blength (records + 1) data empty) :
    exists data', placeRecord hashnr blength records record data empty = some data' ∧
      Linked hashnr blength (records + 1) data' (Finset.range (records + 1)) ∧
      contentsOf (Finset.range (records + 1)) data' =
        record ::ₘ contentsOf ((Finset.range (records + 1)).erase empty) data := by
  have hbound := h.bound
  have hemptyLt := h.empty_lt
  have hposLt := h.home_lt record
  unfold placeRecord
  generalize hpos : myHashMask (hashnr record) blength (records + 1) = pos at hposLt ⊢
  by_cases hempty : pos = empty
  · -- the free slot is the record's own
    subst hempty
    simp only [if_true]
    exact ⟨_, rfl, h.fill_spec hpos (Function.update_self ..)
      (fun i hi => Function.update_of_ne hi _ _)⟩
  · have hlive := OneFree.mem_live hposLt hempty
    simp only [hempty, if_false]
    rw [Function.update_of_ne hempty]
    show exists data', (if pos = homeOf hashnr blength (records + 1) data pos then _
      else _) = some data' ∧ _
    generalize hdata₁ : Function.update data empty (data pos) = data₁
    have hfirst : data₁ empty = data pos := by rw [← hdata₁, Function.update_self]
    have hothers : forall i, i ≠ empty -> data₁ i = data i := by
      intro i hi
      rw [← hdata₁, Function.update_of_ne hi]
    have huempty : uint empty = empty := uint_of_lt (by omega)
    have hupos : uint pos = pos := uint_of_lt (by omega)
    by_cases hown : pos = homeOf hashnr blength (records + 1) data pos
    · -- the slot holds a record of the same bucket
      rw [if_pos hown, huempty]
      refine ⟨_, rfl, h.linkBefore_spec hpos hempty hown.symm
        (Function.update_self ..) ?_ ?_⟩
      · rw [Function.update_of_ne (Ne.symm hempty), hfirst]
      · intro i hi hipos
        rw [Function.update_of_ne hipos, hothers i hi]
    · -- the slot holds a record of another bucket
      rw [if_neg hown]
      have hnewAt : forall i, i ≠ pos ->
          Function.update data₁ pos { next := NO_RECORD, data := record } i = data₁ i :=
        fun i hi => Function.update_of_ne hi _ _
      have hgposLt : homeOf hashnr blength (records + 1) data pos < 2 ^ 32 := by
        have hlt := h.home_lt (data pos).data
        unfold homeOf
        omega
      have hkept : forall i, i ∈ (Finset.range (records + 1)).erase empty -> i ≠ pos ->
          Function.update data₁ pos { next := NO_RECORD, data := record } i =
            data i := by
        intro i hi hipos
        rw [hnewAt i hipos, hothers i (Finset.ne_of_mem_erase hi)]
      rcases movelink_pred h.linked h.nil_not_mem empty _ hlive (Ne.symm hown)
        h.card_le hkept with
        ⟨p, hp, hppos, hlink, hmove⟩
      have hpe := Finset.ne_of_mem_erase hp
      have hugpos : uint (myHashMask (hashnr (data pos).data) blength (records + 1)) =
          homeOf hashnr blength (records + 1) data pos := uint_of_lt hgposLt
      rw [hupos, huempty, hugpos, hmove]
      generalize hdata₂ : Function.update data₁ pos
        { next := NO_RECORD, data := record } = data₂ at hnewAt hmove ⊢
      have hat : data₂ pos = { next := NO_RECORD, data := record } := by
        rw [← hdata₂, Function.update_self]
      refine ⟨_, rfl, h.takeOver_spec hpos hempty hp hlink ?_ (Function.update_self ..) ?_ ?_⟩
      · rw [Function.update_of_ne (Ne.symm hppos), hat]
      · rw [Function.update_of_ne (Ne.symm hpe), hnewAt empty (Ne.symm hempty), hfirst]
      · intro i hi hipos hip
        rw [Function.update_of_ne hip, hnewAt i hipos, hothers i hi]

/-- Relinking an updated record. Where unlinking left the free slot in place, it
still holds the record. -/
theorem relink_spec {idx : Nat} {orgLink : HashLink}
    (h : OneFree hashnr blength size data empty)
    (hstale : empty = idx -> (data empty).data = orgLink.data) :
    exists data', relink hashnr blength size
        (myHashMask (hashnr orgLink.data) blength size) idx orgLink data empty =
          some data' ∧
      Linked hashnr blength size data' (Finset.range size) ∧
      contentsOf (Finset.range size) data' =
        orgLink.data ::ₘ contentsOf ((Finset.range size).erase empty) data := by
  have hbound := h.bound
  have hemptyLt := h.empty_lt
  have hposLt := h.home_lt orgLink.data
  unfold relink
  generalize hpos : myHashMask (hashnr orgLink.data) blength size = pos at hposLt ⊢
  by_cases hempty : pos = empty
  · -- the free slot is the record's own
    rw [if_pos hempty]
    have hvalue : ((if empty ≠ idx then Function.update data empty orgLink
        else data) empty).data = orgLink.data := by
      by_cases hmoved : empty ≠ idx
      · rw [if_pos hmoved, Function.update_self]
      · rw [if_neg hmoved]
        exact hstale (not_not.mp hmoved)
    have hothers : forall i, i ≠ empty ->
        (if empty ≠ idx then Function.update data empty orgLink else data) i =
          data i := by
      intro i hi
      split
      · exact Function.update_of_ne hi _ _
      · rfl
    generalize (if empty ≠ idx then Function.update data empty orgLink else data) =
      data₁ at hvalue hothers ⊢
    refine ⟨_, rfl, h.fill_spec (hpos.trans hempty) ?_ ?_⟩
    · rw [Function.update_self]
      exact congrArg (HashLink.mk NO_RECORD) hvalue
    · intro i hi
      rw [Function.update_of_ne hi, hothers i hi]
  · rw [if_neg hempty]
    have hlive := OneFree.mem_live hposLt hempty
    have huempty : uint empty = empty := uint_of_lt (by omega)
    show exists data', (if pos ≠ homeOf hashnr blength size data pos then _
      else _) = some data' ∧ _
    by_cases hown : pos = homeOf hashnr blength size data pos
    · -- the bucket has a record, in its own slot
      rw [if_neg (not_not.mpr hown), huempty]
      refine ⟨_, rfl, h.linkBehind_spec hpos hempty hown.symm ?_ ?_ ?_⟩
      · rw [Function.update_self, Function.update_of_ne hempty]
      · rw [Function.update_of_ne (Ne.symm hempty), Function.update_self]
      · intro i hi hipos
        rw [Function.update_of_ne hipos, Function.update_of_ne hi]
    · -- the slot holds a record of another bucket
      rw [if_pos hown, huempty]
      have hkept : forall i, i ∈ (Finset.range size).erase empty -> i ≠ pos ->
          Function.update data empty (data pos) i = data i :=
        fun i hi _hipos => Function.update_of_ne (Finset.ne_of_mem_erase hi) _ _
      rcases movelink_pred h.linked h.nil_not_mem empty _ hlive (Ne.symm hown)
        (Nat.le_succ_of_le h.card_le) hkept with
        ⟨p, hp, hppos, hlink, hmove⟩
      have hpe := Finset.ne_of_mem_erase hp
      have hmoved : movelink pos empty (size + 1)
          (Function.update data empty (data pos))
          (myHashMask (hashnr (data pos).data) blength size) = _ := hmove
      rw [hmoved, Option.map_some]
      have hnewAt : forall (data₂ : Nat -> HashLink) i, i ≠ pos ->
          Function.update data₂ pos { orgLink with next := NO_RECORD } i = data₂ i :=
        fun _ i hi => Function.update_of_ne hi _ _
      refine ⟨_, rfl, h.takeOver_spec hpos hempty hp hlink (Function.update_self ..) ?_ ?_ ?_⟩
      · rw [hnewAt _ p hppos, Function.update_self]
      · rw [hnewAt _ empty (Ne.symm hempty), Function.update_of_ne (Ne.symm hpe),
          Function.update_self]
      · intro i hi hipos hip
        rw [hnewAt _ i hipos, Function.update_of_ne hip, Function.update_of_ne hi]

end DynHash
end MyLibs
