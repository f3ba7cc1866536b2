import MyLibs.DynHash.Placing

/-!
# Splitting a bucket

The loop of `my_hash_insert` deals the records of one chain out to two. A record
that starts one of the halves out of place, or whose successor went to the
other half, is written only when the next record of its half turns up or the
chain ends. Until then it lives in `ptr_to_rec` or `ptr_to_rec2`.
-/

namespace MyLibs
namespace DynHash

open Foundation

/-- One half of the split: its slots and its records so far. All but the last
are in place; the last one is, too, while `used` is set, and then its link is
still the old one. -/
structure Half (data : Nat -> HashLink) (start : Nat) (slots : List Nat)
    (records : List Ptr) (found used : Bool) (gpos : Nat) (ptrToRec : Ptr)
    (idx : Nat) : Prop where
  absent : found = false -> slots = [] ∧ records = [] ∧ used = false
  present : found = true -> exists before, slots = before ++ [gpos] ∧
    records = (before.map fun i => (data i).data) ++ [ptrToRec] ∧
    Segment (nextOf data) start before gpos
  current : used = true -> data gpos = { next := idx, data := ptrToRec }

namespace Half

variable {data data' : Nat -> HashLink} {start : Nat} {slots : List Nat}
variable {records : List Ptr} {found used : Bool} {gpos : Nat} {ptrToRec : Ptr}
variable {idx : Nat}

theorem gpos_mem (h : Half data start slots records found used gpos ptrToRec idx)
    (hfound : found = true) : gpos ∈ slots := by
  rcases h.present hfound with ⟨before, hslots, _⟩
  rw [hslots]
  simp

theorem congr (h : Half data start slots records found used gpos ptrToRec idx)
    (hsame : forall i, i ∈ slots -> data' i = data i) :
    Half data' start slots records found used gpos ptrToRec idx where
  absent := h.absent
  present hfound := by
    rcases h.present hfound with ⟨before, hslots, hrecords, hsegment⟩
    have hbefore : forall i, i ∈ before -> data' i = data i := by
      intro i hi
      apply hsame
      rw [hslots]
      exact List.mem_append_left _ hi
    refine ⟨before, hslots, ?_, ?_⟩
    · rw [hrecords]
      congr 1
      apply List.map_congr_left
      intro i hi
      rw [hbefore i hi]
    · apply hsegment.congr
      intro i hi
      unfold nextOf
      rw [hbefore i hi]
  current hused := by
    cases found with
    | false => exact absurd hused (by simp [(h.absent rfl).right.right])
    | true => rw [hsame gpos (h.gpos_mem rfl), h.current hused]

/-- The other half took the next record. -/
theorem pass (h : Half data start slots records found used gpos ptrToRec idx)
    (hsame : forall i, i ∈ slots -> data' i = data i) (idx' : Nat) :
    Half data' start slots records found false gpos ptrToRec idx' where
  absent hfound := by
    rcases h.absent hfound with ⟨hslots, hrecords, _⟩
    exact ⟨hslots, hrecords, rfl⟩
  present := (h.congr hsame).present
  current hused := absurd hused (by simp)

theorem first (hstart : start = idx) :
    Half data start [idx] [(data idx).data] true true idx (data idx).data
      (data idx).next where
  absent hfound := absurd hfound (by simp)
  present _ := ⟨[], rfl, rfl, hstart⟩
  current _ := rfl

/-- The first record of a half that has to move to the slot of its bucket. -/
theorem firstMoved (ptrToRec : Ptr) (idx : Nat) :
    Half data start [start] [ptrToRec] true false start ptrToRec idx where
  absent hfound := absurd hfound (by simp)
  present _ := ⟨[], rfl, rfl, rfl⟩
  current hused := absurd hused (by simp)

/-- The last record of the half is put in place, with the link to the next one
of the half. -/
def settle (data : Nat -> HashLink) (used : Bool) (gpos : Nat) (ptrToRec : Ptr)
    (next : Nat) : Nat -> HashLink :=
  if used then data
  else Function.update data gpos { next := next, data := ptrToRec }

theorem settle_of_ne {i next : Nat} (hi : i ≠ gpos) :
    settle data used gpos ptrToRec next i = data i := by
  unfold settle
  split
  · rfl
  · exact Function.update_of_ne hi _ _

theorem settled (h : Half data start slots records true used gpos ptrToRec idx)
    (hnodup : slots.Nodup) :
    Segment (nextOf (settle data used gpos ptrToRec idx)) start slots idx ∧
      slots.map (fun i => (settle data used gpos ptrToRec idx i).data) = records := by
  rcases h.present rfl with ⟨before, hslots, hrecords, hsegment⟩
  have hat : settle data used gpos ptrToRec idx gpos =
      { next := idx, data := ptrToRec } := by
    unfold settle
    split
    · rename_i hused
      exact h.current hused
    · exact Function.update_self ..
  have hbefore : forall i, i ∈ before ->
      settle data used gpos ptrToRec idx i = data i := by
    intro i hi
    apply settle_of_ne
    rintro rfl
    rw [hslots] at hnodup
    grind
  rw [hslots]
  constructor
  · refine Segment.append (show Segment _ start before gpos from ?_) ?_
    · apply hsegment.congr
      intro i hi
      unfold nextOf
      rw [hbefore i hi]
    · refine ⟨rfl, ?_⟩
      unfold nextOf
      rw [hat]
      rfl
  · rw [List.map_append, hrecords]
    congr 1
    · apply List.map_congr_left
      intro i hi
      rw [hbefore i hi]
    · simp [hat]

def due (data : Nat -> HashLink) (found used : Bool) (gpos : Nat) (ptrToRec : Ptr) :
    Nat -> HashLink :=
  if found && !used then
    Function.update data gpos { next := NO_RECORD, data := ptrToRec }
  else
    data

theorem due_of_not_mem (h : Half data start slots records found used gpos ptrToRec idx)
    {i : Nat} (hi : i ∉ slots) : due data found used gpos ptrToRec i = data i := by
  rw [due]
  split
  · rename_i hdue
    apply Function.update_of_ne
    rintro rfl
    exact hi (h.gpos_mem (Bool.and_eq_true_iff.mp hdue).left)
  · rfl

theorem complete (h : Half data start slots records found used gpos ptrToRec NO_RECORD)
    (hnodup : slots.Nodup) :
    (slots ≠ [] -> Segment (nextOf (due data found used gpos ptrToRec)) start slots NO_RECORD) ∧
      (slots.map fun i => (due data found used gpos ptrToRec i).data) = records := by
  cases found with
  | false =>
      rcases h.absent rfl with ⟨hslots, hrecords, _⟩
      rw [hslots, hrecords]
      exact ⟨fun hne => absurd rfl hne, rfl⟩
  | true =>
      have hsettled := h.settled hnodup
      have hsame : due data true used gpos ptrToRec =
          settle data used gpos ptrToRec NO_RECORD := by
        cases used with
        | false => rfl
        | true => rfl
      rw [hsame]
      exact ⟨fun _ => hsettled.left, hsettled.right⟩

theorem append (h : Half data start slots records true used gpos ptrToRec idx)
    (hnodup : slots.Nodup) (hidx : idx ∉ slots) :
    Half (settle data used gpos ptrToRec idx) start (slots ++ [idx])
      (records ++ [(data idx).data]) true true idx (data idx).data
      (data idx).next where
  absent hfound := absurd hfound (by simp)
  present _ := by
    rcases h.settled hnodup with ⟨hsegment, hrecords⟩
    exact ⟨slots, rfl, by rw [hrecords], hsegment⟩
  current _ := by
    apply settle_of_ne
    rintro rfl
    exact hidx (h.gpos_mem rfl)

end Half

/-!
## The loop
-/

def StaysLow (hashnr : Ptr -> UInt32) (halfbuff : Nat) (record : Ptr) : Prop :=
  (hashnr record).toNat &&& halfbuff = 0

/-- Before the slot `idx` of the chain `path` is dealt out. `path` starts in
`first`, and `last` is the slot that was just allocated. -/
structure Splitting (hashnr : Ptr -> UInt32) (halfbuff first last : Nat)
    (start : Nat -> HashLink) (path : List Nat) (idx : Nat) (rest : List Nat)
    (low high : List Nat) (lowRecords highRecords : List Ptr) (s : Split) :
    Prop where
  slots : (low ++ (high ++ s.empty :: rest)).Perm (last :: path)
  lowHalf : Half s.data first low lowRecords s.flag.lowfind s.flag.lowused s.gpos
    s.ptrToRec idx
  highHalf : Half s.data last high highRecords s.flag.highfind s.flag.highused
    s.gpos2 s.ptrToRec2 idx
  records : (lowRecords ++ (highRecords ++ rest.map fun i => (start i).data)).Perm
    (path.map fun i => (start i).data)
  staysLow : forall record, record ∈ lowRecords -> StaysLow hashnr halfbuff record
  goesHigh : forall record, record ∈ highRecords ->
    ¬ StaysLow hashnr halfbuff record
  untouched : forall i, i ∉ low -> i ∉ high -> s.data i = start i
  rest : Segment (nextOf start) idx rest NO_RECORD
  empty_last : s.flag.highfind = false -> s.empty = last
  empty_first : s.flag.highfind = true -> s.flag.lowfind = false -> s.empty = first
  atFirst : s.flag.highfind = false -> s.flag.lowfind = false -> idx = first
  oneUsed : s.flag.lowused = true -> s.flag.highused = false

section Loop

variable {hashnr : Ptr -> UInt32} {halfbuff first last : Nat}
variable {start : Nat -> HashLink} {path rest low high : List Nat} {idx : Nat}
variable {lowRecords highRecords : List Ptr} {s : Split}

namespace Splitting

theorem nodup
    (h : Splitting hashnr halfbuff first last start path idx rest low high
      lowRecords highRecords s)
    (hpath : (last :: path).Nodup) : (low ++ (high ++ s.empty :: rest)).Nodup :=
  h.slots.symm.nodup hpath

/-- Which slot of a permutation comes next does not matter. -/
theorem take_perm {α : Type _} (front middle back : List α) (i e : α) :
    (front ++ [i] ++ (middle ++ e :: back)).Perm
      (front ++ (middle ++ e :: i :: back)) := by
  rw [List.append_assoc]
  apply List.Perm.append_left
  have hfront : i :: (middle ++ e :: back) = i :: ((middle ++ [e]) ++ back) := by simp
  have hback : middle ++ e :: i :: back = (middle ++ [e]) ++ i :: back := by simp
  rw [List.singleton_append, hfront, hback]
  exact List.perm_middle.symm

theorem data_idx
    (h : Splitting hashnr halfbuff first last start path idx (idx :: rest) low high
      lowRecords highRecords s)
    (hpath : (last :: path).Nodup) : s.data idx = start idx := by
  have hnodup := h.nodup hpath
  apply h.untouched
  · grind
  · grind

theorem low_records
    (h : Splitting hashnr halfbuff first last start path idx (idx :: rest) low high
      lowRecords highRecords s) :
    (lowRecords ++ [(start idx).data] ++
      (highRecords ++ rest.map fun i => (start i).data)).Perm
        (path.map fun i => (start i).data) := by
  apply List.Perm.trans _ h.records
  rw [List.append_assoc]
  apply List.Perm.append_left
  simpa using (List.perm_middle : List.Perm _ _).symm

theorem low_stays
    (h : Splitting hashnr halfbuff first last start path idx (idx :: rest) low high
      lowRecords highRecords s)
    (hlow : StaysLow hashnr halfbuff (start idx).data) :
    forall record, record ∈ lowRecords ++ [(start idx).data] ->
      StaysLow hashnr halfbuff record := by
  intro record hrecord
  rcases List.mem_append.mp hrecord with hold | hnew
  · exact h.staysLow record hold
  · rw [List.mem_singleton.mp hnew]
    exact hlow

theorem step_low_moved
    (h : Splitting hashnr halfbuff first last start path idx (idx :: rest) low high
      lowRecords highRecords s)
    (hpath : (last :: path).Nodup) (hlow : StaysLow hashnr halfbuff (start idx).data)
    (hlowfind : s.flag.lowfind = false) (hhighfind : s.flag.highfind = true) :
    exists low' lowRecords',
      Splitting hashnr halfbuff first last start path (start idx).next rest low' high
        lowRecords' highRecords
        (splitStep halfbuff (hashnr (s.data idx).data) idx s) := by
  have hdata := h.data_idx hpath
  have hbit : (hashnr (s.data idx).data).toNat &&& halfbuff = 0 := by
    rw [hdata]
    exact hlow
  have hrecords := h.low_records
  have hstays := h.low_stays hlow
  rcases h.lowHalf.absent hlowfind with ⟨hslots, hnone, _⟩
  rw [hnone] at hrecords hstays
  have hempty := h.empty_first hhighfind hlowfind
  have hstep : splitStep halfbuff (hashnr (s.data idx).data) idx s =
      { s with
        flag := { SplitFlag.zero with lowfind := true, highfind := true }
        gpos := s.empty
        ptrToRec := (s.data idx).data
        empty := idx } := by
    simp [splitStep, hbit, hlowfind, hhighfind]
  rw [hstep, hempty, hdata]
  refine ⟨[first], [(start idx).data], ?_, Half.firstMoved _ _, ?_, hrecords,
    hstays, h.goesHigh, ?_, h.rest.right, by simp, by simp, by simp,
    fun _ => rfl⟩
  · apply List.Perm.trans _ h.slots
    rw [hslots, hempty]
    simpa using (List.perm_middle : List.Perm _ _).symm
  · have hpass := h.highHalf.pass (fun _ _ => rfl) (start idx).next
    rw [hhighfind] at hpass
    exact hpass
  · intro i _hlow hhigh
    exact h.untouched i (by rw [hslots]; exact List.not_mem_nil) hhigh

theorem step_low_first
    (h : Splitting hashnr halfbuff first last start path idx (idx :: rest) low high
      lowRecords highRecords s)
    (hpath : (last :: path).Nodup) (hlow : StaysLow hashnr halfbuff (start idx).data)
    (hlowfind : s.flag.lowfind = false) (hhighfind : s.flag.highfind = false) :
    exists low' lowRecords',
      Splitting hashnr halfbuff first last start path (start idx).next rest low' high
        lowRecords' highRecords
        (splitStep halfbuff (hashnr (s.data idx).data) idx s) := by
  have hdata := h.data_idx hpath
  have hbit : (hashnr (s.data idx).data).toNat &&& halfbuff = 0 := by
    rw [hdata]
    exact hlow
  have hrecords := h.low_records
  have hstays := h.low_stays hlow
  rcases h.lowHalf.absent hlowfind with ⟨hslots, hnone, _⟩
  rw [hnone] at hrecords hstays
  have hfirst := h.atFirst hhighfind hlowfind
  have hempty := h.empty_last hhighfind
  rcases h.highHalf.absent hhighfind with ⟨hhighSlots, _, _⟩
  have hstep : splitStep halfbuff (hashnr (s.data idx).data) idx s =
      { s with
        flag := { SplitFlag.zero with lowfind := true, lowused := true }
        gpos := idx
        ptrToRec := (s.data idx).data } := by
    simp [splitStep, hbit, hlowfind, hhighfind]
  rw [hstep]
  refine ⟨[idx], [(start idx).data], ?_, ?_, ?_, hrecords, hstays,
    h.goesHigh, ?_, h.rest.right, fun _ => hempty, by simp [SplitFlag.zero],
    by simp, by simp [SplitFlag.zero]⟩
  · apply List.Perm.trans _ h.slots
    rw [hslots, hhighSlots]
    exact List.Perm.swap ..
  · rw [hdata]
    have hhalf : Half s.data first [idx] _ true true idx _ _ :=
      Half.first hfirst.symm
    rw [hdata] at hhalf
    exact hhalf
  · have hpass := h.highHalf.pass (fun _ _ => rfl) (start idx).next
    rw [hhighfind] at hpass
    exact hpass
  · intro i _hlow hhigh
    exact h.untouched i (by rw [hslots]; exact List.not_mem_nil) hhigh

theorem step_low_append
    (h : Splitting hashnr halfbuff first last start path idx (idx :: rest) low high
      lowRecords highRecords s)
    (hpath : (last :: path).Nodup) (hbound : idx < 2 ^ 32)
    (hlow : StaysLow hashnr halfbuff (start idx).data) (hlowfind : s.flag.lowfind = true) :
    exists low' lowRecords',
      Splitting hashnr halfbuff first last start path (start idx).next rest low' high
        lowRecords' highRecords
        (splitStep halfbuff (hashnr (s.data idx).data) idx s) := by
  have hnodup := h.nodup hpath
  have hdata := h.data_idx hpath
  have hrecords := h.low_records
  have hstays := h.low_stays hlow
  have hhalf := h.lowHalf
  rw [hlowfind] at hhalf
  have hgpos := hhalf.gpos_mem rfl
  have hidx : idx ∉ low := by grind
  have hlowNodup : low.Nodup := hnodup.of_append_left
  have hlowIdx : idx ≠ s.gpos := by
    rintro rfl
    exact hidx hgpos
  have hstep : splitStep halfbuff (hashnr (s.data idx).data) idx s =
      { s with
        data := Half.settle s.data s.flag.lowused s.gpos s.ptrToRec idx
        flag :=
          if s.flag.lowused then s.flag
          else { SplitFlag.zero with
            lowfind := true, lowused := true, highfind := s.flag.highfind }
        gpos := idx
        ptrToRec := (start idx).data } := by
    cases hused : s.flag.lowused <;>
      simp [splitStep, Half.settle, show _ &&& halfbuff = 0 from hlow, hlowfind,
        hused, uint_of_lt hbound, Function.update_of_ne hlowIdx, hdata]
  have hflag : (if s.flag.lowused then s.flag else { SplitFlag.zero with
        lowfind := true, lowused := true, highfind := s.flag.highfind }) =
      { lowfind := true, lowused := true, highfind := s.flag.highfind,
        highused := false } := by
    cases hused : s.flag.lowused with
    | false => rfl
    | true =>
        have hother := h.oneUsed hused
        rw [if_pos rfl]
        exact SplitFlag.ext hlowfind hused rfl hother
  rw [hstep, hflag]
  refine ⟨low ++ [idx], lowRecords ++ [(start idx).data],
    (take_perm low high rest idx s.empty).trans h.slots, ?_, ?_, hrecords,
    hstays, h.goesHigh, ?_, h.rest.right, h.empty_last, by simp, by simp,
    fun _ => rfl⟩
  · have hnew := hhalf.append hlowNodup hidx
    rw [hdata] at hnew
    exact hnew
  · apply h.highHalf.pass
    intro i hi
    apply Half.settle_of_ne
    rintro rfl
    grind
  · intro i hlow' hhigh
    have hi : i ∉ low := fun hmem => hlow' (List.mem_append_left _ hmem)
    rw [← h.untouched i hi hhigh]
    apply Half.settle_of_ne
    rintro rfl
    exact hi hgpos

theorem step_low
    (h : Splitting hashnr halfbuff first last start path idx (idx :: rest) low high
      lowRecords highRecords s)
    (hpath : (last :: path).Nodup) (hbound : idx < 2 ^ 32)
    (hlow : StaysLow hashnr halfbuff (start idx).data) :
    exists low' lowRecords',
      Splitting hashnr halfbuff first last start path (start idx).next rest low' high
        lowRecords' highRecords
        (splitStep halfbuff (hashnr (s.data idx).data) idx s) := by
  cases hlowfind : s.flag.lowfind with
  | false =>
      cases hhighfind : s.flag.highfind with
      | true => exact h.step_low_moved hpath hlow hlowfind hhighfind
      | false => exact h.step_low_first hpath hlow hlowfind hhighfind
  | true => exact h.step_low_append hpath hbound hlow hlowfind

theorem high_records
    (h : Splitting hashnr halfbuff first last start path idx (idx :: rest) low high
      lowRecords highRecords s) :
    (lowRecords ++ (highRecords ++ [(start idx).data] ++
      rest.map fun i => (start i).data)).Perm
        (path.map fun i => (start i).data) := by
  apply List.Perm.trans _ h.records
  simp

theorem high_goes
    (h : Splitting hashnr halfbuff first last start path idx (idx :: rest) low high
      lowRecords highRecords s)
    (hhigh : ¬ StaysLow hashnr halfbuff (start idx).data) :
    forall record, record ∈ highRecords ++ [(start idx).data] ->
      ¬ StaysLow hashnr halfbuff record := by
  intro record hrecord
  rcases List.mem_append.mp hrecord with hold | hnew
  · exact h.goesHigh record hold
  · rw [List.mem_singleton.mp hnew]
    exact hhigh

theorem step_high_moved
    (h : Splitting hashnr halfbuff first last start path idx (idx :: rest) low high
      lowRecords highRecords s)
    (hpath : (last :: path).Nodup) (hhigh : ¬ StaysLow hashnr halfbuff (start idx).data)
    (hhighfind : s.flag.highfind = false) :
    exists high' highRecords',
      Splitting hashnr halfbuff first last start path (start idx).next rest low high'
        lowRecords highRecords'
        (splitStep halfbuff (hashnr (s.data idx).data) idx s) := by
  have hdata := h.data_idx hpath
  have hbit : (hashnr (s.data idx).data).toNat &&& halfbuff ≠ 0 := by
    rw [hdata]
    exact hhigh
  have hrecords := h.high_records
  have hgoes := h.high_goes hhigh
  rcases h.highHalf.absent hhighfind with ⟨hslots, hnone, _⟩
  have hempty := h.empty_last hhighfind
  rw [hnone] at hrecords hgoes
  have hstep : splitStep halfbuff (hashnr (s.data idx).data) idx s =
      { s with
        flag := { SplitFlag.zero with
          lowfind := s.flag.lowfind, highfind := true }
        gpos2 := s.empty
        empty := idx
        ptrToRec2 := (s.data idx).data } := by
    simp [splitStep, hbit, hhighfind]
  rw [hstep, hempty, hdata]
  refine ⟨[last], [(start idx).data], ?_, ?_, Half.firstMoved _ _, hrecords,
    h.staysLow, hgoes, ?_, h.rest.right, by simp, ?_, by simp, fun _ => rfl⟩
  · apply List.Perm.trans _ h.slots
    rw [hslots, hempty]
    exact List.Perm.refl _
  · exact h.lowHalf.pass (fun _ _ => rfl) (start idx).next
  · intro i hlow _hhigh
    exact h.untouched i hlow (by rw [hslots]; exact List.not_mem_nil)
  · intro _ hlowfind
    exact h.atFirst hhighfind hlowfind

theorem step_high_append
    (h : Splitting hashnr halfbuff first last start path idx (idx :: rest) low high
      lowRecords highRecords s)
    (hpath : (last :: path).Nodup) (hbound : idx < 2 ^ 32)
    (hhigh : ¬ StaysLow hashnr halfbuff (start idx).data) (hhighfind : s.flag.highfind = true) :
    exists high' highRecords',
      Splitting hashnr halfbuff first last start path (start idx).next rest low high'
        lowRecords highRecords'
        (splitStep halfbuff (hashnr (s.data idx).data) idx s) := by
  have hnodup := h.nodup hpath
  have hdata := h.data_idx hpath
  have hrecords := h.high_records
  have hgoes := h.high_goes hhigh
  have hhalf := h.highHalf
  rw [hhighfind] at hhalf
  have hgpos := hhalf.gpos_mem rfl
  have hidx : idx ∉ high := by grind
  have hhighNodup : high.Nodup := hnodup.of_append_right.of_append_left
  have hhighIdx : idx ≠ s.gpos2 := by
    rintro rfl
    exact hidx hgpos
  have hstep : splitStep halfbuff (hashnr (s.data idx).data) idx s =
      { s with
        data := Half.settle s.data s.flag.highused s.gpos2 s.ptrToRec2 idx
        flag :=
          if s.flag.highused then s.flag
          else { SplitFlag.zero with
            lowfind := s.flag.lowfind, highfind := true, highused := true }
        gpos2 := idx
        ptrToRec2 := (start idx).data } := by
    cases hused : s.flag.highused <;>
      simp [splitStep, Half.settle, show ¬ _ &&& halfbuff = 0 from hhigh, hhighfind,
        hused, uint_of_lt hbound, Function.update_of_ne hhighIdx, hdata]
  have hflag : (if s.flag.highused then s.flag else { SplitFlag.zero with
        lowfind := s.flag.lowfind, highfind := true, highused := true }) =
      { lowfind := s.flag.lowfind, lowused := false, highfind := true,
        highused := true } := by
    cases hused : s.flag.highused with
    | false => rfl
    | true =>
        have hother : s.flag.lowused = false := by
          cases hlowused : s.flag.lowused with
          | false => rfl
          | true =>
              have hnot := h.oneUsed hlowused
              rw [hused] at hnot
              exact absurd hnot (by simp)
        rw [if_pos rfl]
        exact SplitFlag.ext rfl hother hhighfind hused
  rw [hstep, hflag]
  refine ⟨high ++ [idx], highRecords ++ [(start idx).data], ?_, ?_, ?_, hrecords,
    h.staysLow, hgoes, ?_, h.rest.right, by simp, ?_, by simp, by simp⟩
  · apply List.Perm.trans _ h.slots
    apply List.Perm.append_left
    exact take_perm high [] rest idx s.empty
  · apply h.lowHalf.pass
    intro i hi
    apply Half.settle_of_ne
    rintro rfl
    grind
  · have hnew := hhalf.append hhighNodup hidx
    rw [hdata] at hnew
    exact hnew
  · intro i hlow hhigh'
    have hi : i ∉ high := fun hmem => hhigh' (List.mem_append_left _ hmem)
    rw [← h.untouched i hlow hi]
    apply Half.settle_of_ne
    rintro rfl
    exact hi hgpos
  · intro _ hlowfind
    exact h.empty_first hhighfind hlowfind

theorem step_high
    (h : Splitting hashnr halfbuff first last start path idx (idx :: rest) low high
      lowRecords highRecords s)
    (hpath : (last :: path).Nodup) (hbound : idx < 2 ^ 32)
    (hhigh : ¬ StaysLow hashnr halfbuff (start idx).data) :
    exists high' highRecords',
      Splitting hashnr halfbuff first last start path (start idx).next rest low high'
        lowRecords highRecords'
        (splitStep halfbuff (hashnr (s.data idx).data) idx s) := by
  cases hhighfind : s.flag.highfind with
  | false => exact h.step_high_moved hpath hhigh hhighfind
  | true => exact h.step_high_append hpath hbound hhigh hhighfind

theorem step_data
    (h : Splitting hashnr halfbuff first last start path idx (idx :: rest) low high
      lowRecords highRecords s)
    (hpath : (last :: path).Nodup) (hashNr : UInt32) :
    (splitStep halfbuff hashNr idx s).data idx = start idx := by
  have hnodup := h.nodup hpath
  have hlow : s.flag.lowfind = true -> idx ≠ s.gpos := by
    intro hfound
    have hhalf := h.lowHalf
    rw [hfound] at hhalf
    have hmem := hhalf.gpos_mem rfl
    grind
  have hhigh : s.flag.highfind = true -> idx ≠ s.gpos2 := by
    intro hfound
    have hhalf := h.highHalf
    rw [hfound] at hhalf
    have hmem := hhalf.gpos_mem rfl
    grind
  rw [← h.data_idx hpath]
  unfold splitStep
  split_ifs with hbit hlowfind hhighfind hlowused hhighfind hhighused
  · rfl
  · rfl
  · exact Function.update_of_ne (hlow (by simpa using hlowfind)) _ _
  · rfl
  · rfl
  · exact Function.update_of_ne (hhigh (by simpa using hhighfind)) _ _
  · rfl

theorem loop (blength records fuel : Nat)
    (h : Splitting hashnr halfbuff first last start path idx rest low high
      lowRecords highRecords s)
    (hrest : rest ≠ []) (hpath : (last :: path).Nodup)
    (hinner : forall i, i ∈ rest -> i < NO_RECORD ∧
      myHashMask (hashnr (start i).data) blength records = first)
    (hfuel : rest.length <= fuel) :
    exists s' low' high' lowRecords' highRecords',
      splitLoop hashnr blength records halfbuff first fuel idx s = some s' ∧
      Splitting hashnr halfbuff first last start path NO_RECORD [] low' high'
        lowRecords' highRecords' s' := by
  induction rest generalizing idx low high lowRecords highRecords s fuel with
  | nil => exact absurd rfl hrest
  | cons i rest ih =>
      have hidx : idx = i := h.rest.left
      subst hidx
      have hi := hinner idx (List.mem_cons_self ..)
      have hbound : idx < 2 ^ 32 := Nat.lt_trans hi.left (by decide)
      have hnext := h.rest.right
      cases fuel with
      | zero => exact absurd hfuel (by simp)
      | succ fuel =>
          have hbucket : ¬ (s.flag = SplitFlag.zero ∧
              myHashMask (hashnr (s.data idx).data) blength records ≠ first) := by
            rw [h.data_idx hpath]
            rintro ⟨_, hother⟩
            exact hother hi.right
          have hdata := h.step_data hpath (hashnr (s.data idx).data)
          have hstep : exists low' high' lowRecords' highRecords',
              Splitting hashnr halfbuff first last start path (start idx).next rest
                low' high' lowRecords' highRecords'
                (splitStep halfbuff (hashnr (s.data idx).data) idx s) := by
            by_cases hlow : StaysLow hashnr halfbuff (start idx).data
            · rcases h.step_low hpath hbound hlow with ⟨low', lowRecords', hnew⟩
              exact ⟨low', high, lowRecords', highRecords, hnew⟩
            · rcases h.step_high hpath hbound hlow with ⟨high', highRecords', hnew⟩
              exact ⟨low, high', lowRecords, highRecords', hnew⟩
          rcases hstep with ⟨low', high', lowRecords', highRecords', hnew⟩
          unfold splitLoop
          rw [if_neg hbucket]
          simp only [hdata]
          cases rest with
          | nil =>
              have hend : (start idx).next = NO_RECORD := hnext
              rw [hend] at hnew ⊢
              exact ⟨_, low', high', lowRecords', highRecords', by simp, hnew⟩
          | cons j rest =>
              have hj : (start idx).next = j := hnext.left
              have hne : (start idx).next ≠ NO_RECORD := by
                rw [hj]
                exact Nat.ne_of_lt (hinner j (by simp)).left
              rw [if_pos (by simpa using hne)]
              exact ih fuel hnew (by simp)
                (fun k hk => hinner k (List.mem_cons_of_mem idx hk))
                (Nat.le_of_succ_le_succ hfuel)

/-- What the loop and the writes after it leave behind: two chains. -/
theorem finish
    (h : Splitting hashnr halfbuff first last start path NO_RECORD [] low high
      lowRecords highRecords s)
    (hpath : (last :: path).Nodup) :
    (low ≠ [] -> Segment (nextOf (splitFinish s)) first low NO_RECORD) ∧
      (high ≠ [] -> Segment (nextOf (splitFinish s)) last high NO_RECORD) ∧
      (low.map fun i => (splitFinish s i).data) = lowRecords ∧
      (high.map fun i => (splitFinish s i).data) = highRecords ∧
      forall i, i ∉ low -> i ∉ high -> splitFinish s i = start i := by
  have hnodup := h.nodup hpath
  have hlowNodup : low.Nodup := hnodup.of_append_left
  have hhighNodup : high.Nodup := hnodup.of_append_right.of_append_left
  have hfinish : splitFinish s = Half.due
      (Half.due s.data s.flag.lowfind s.flag.lowused s.gpos s.ptrToRec)
      s.flag.highfind s.flag.highused s.gpos2 s.ptrToRec2 := rfl
  -- the write for the low half does not touch the high one, nor the other way round
  have hhighHalf := h.highHalf.congr fun i hi => h.lowHalf.due_of_not_mem (i := i) (by grind)
  have hlow := h.lowHalf.complete hlowNodup
  have hhigh := hhighHalf.complete hhighNodup
  have hkept : forall i, i ∉ high -> splitFinish s i =
      Half.due s.data s.flag.lowfind s.flag.lowused s.gpos s.ptrToRec i :=
    fun i hi => hhighHalf.due_of_not_mem hi
  have hkeptLow : forall i, i ∈ low -> splitFinish s i =
      Half.due s.data s.flag.lowfind s.flag.lowused s.gpos s.ptrToRec i := by
    intro i hi
    apply hkept
    grind
  rw [← hfinish] at hhigh
  refine ⟨?_, hhigh.left, ?_, hhigh.right, ?_⟩
  · intro hne
    apply (hlow.left hne).congr
    intro i hi
    unfold nextOf
    rw [hkeptLow i hi]
  · rw [← hlow.right]
    apply List.map_congr_left
    intro i hi
    rw [hkeptLow i hi]
  · intro i hlow' hhigh'
    rw [hkept i hhigh', h.lowHalf.due_of_not_mem hlow', h.untouched i hlow' hhigh']

end Splitting

end Loop

end DynHash
end MyLibs
