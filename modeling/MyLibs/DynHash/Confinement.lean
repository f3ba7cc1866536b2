import MyLibs.DynHash.Runs
import MyLibs.Foundation.Confined

/-!
# The table stays inside of its array

The array of links has no end in the model, so that an access behind its last slot
would go unnoticed. There is none: with any other links behind the slots in use, each
function does the same, and leaves those links as they are.
-/

namespace MyLibs
namespace DynHash

open Foundation

def Closed (records : Nat) (data : Nat -> HashLink) : Prop :=
  forall i, i < records -> (data i).next = NO_RECORD ∨ (data i).next < records

def MyHash.padded {content : Type _} (hash : MyHash content) (n : Nat)
    (junk : Nat -> HashLink) : MyHash content :=
  { hash with array := { hash.array with buffer := Foundation.padded n hash.links junk } }

variable {n records : Nat} {data junk : Nat -> HashLink}

/-!
## Walking a chain
-/

/-- A walk that leaves the slots can be caught there. -/
theorem movelink_stuck {find newlink x start : Nat} (fuel : Nat) (record : Ptr)
    (hfind : x ≠ find) (hx : n <= x) (hstart : n <= start) :
    movelink find newlink fuel (padded n data fun _ => { next := x, data := record }) start =
      none := by
  induction fuel generalizing start with
  | zero => rfl
  | succ fuel ih =>
      rw [movelink]
      simp only [padded_of_le hstart, bne_iff_ne, ne_eq, hfind, not_false_eq_true, if_true]
      exact ih hx

theorem movelink_confined {find newlink fuel start : Nat}
    (hends : forall junk, movelink find newlink fuel (padded n data junk) start ≠ none) :
    Confined n (fun data => movelink find newlink fuel data start) data := by
  intro junk
  show movelink find newlink fuel (padded n data junk) start =
    (movelink find newlink fuel data start).map fun data => padded n data junk
  induction fuel generalizing start with
  | zero => exact absurd rfl (hends junk)
  | succ fuel ih =>
      by_cases hstart : start < n
      · rw [movelink, movelink, padded_of_lt hstart]
        by_cases hnext : (data start).next = find
        · simp only [hnext, bne_self_eq_false, Bool.false_eq_true, if_false, Option.map_some]
          rw [update_padded hstart]
        · have hne : ((data start).next != find) = true := by simpa using hnext
          rw [if_pos hne, if_pos hne]
          apply ih
          intro other hnone
          apply hends other
          rw [movelink, padded_of_lt hstart, if_pos hne]
          exact hnone
      · -- the junk links to itself
        have hout : exists x, n <= x ∧ x ≠ find := by
          by_cases hn : n = find
          · exact ⟨n + 1, by omega, by omega⟩
          · exact ⟨n, Nat.le_refl n, hn⟩
        rcases hout with ⟨x, hx, hfind⟩
        exact absurd (movelink_stuck _ NULL hfind hx (Nat.le_of_not_lt hstart)) (hends _)

/-!
## Placing and moving records
-/

section Placing

variable {hashnr : Ptr -> UInt32} {oldBlength blength empty : Nat}

theorem placeRecord_confined {record : Ptr}
    (hpos : myHashMask (hashnr record) blength (records + 1) < n) (hempty : empty < n)
    (hends : forall junk,
      placeRecord hashnr blength records record (padded n data junk) empty ≠ none) :
    Confined n (fun data => placeRecord hashnr blength records record data empty) data := by
  intro junk
  unfold placeRecord at hends ⊢
  generalize myHashMask (hashnr record) blength (records + 1) = pos at hpos hends ⊢
  simp only [padded_of_lt hpos, update_padded hpos, update_padded hempty] at hends ⊢
  split
  · rfl
  · rename_i hne
    simp only [if_neg hne] at hends
    split
    · rfl
    · rename_i hforeign
      simp only [if_neg hforeign] at hends
      exact movelink_confined hends junk

theorem relink_confined {newIndex idx : Nat} {orgLink : HashLink} (hindex : newIndex < n)
    (hempty : empty < n)
    (hends : forall junk,
      relink hashnr blength records newIndex idx orgLink (padded n data junk) empty ≠ none) :
    Confined n (fun data => relink hashnr blength records newIndex idx orgLink data empty)
      data := by
  intro junk
  unfold relink at hends ⊢
  simp only [padded_of_lt hindex, update_padded hindex, update_padded hempty] at hends ⊢
  split
  · split
    · simp only [padded_of_lt hempty, update_padded hempty]
      rfl
    · simp only [padded_of_lt hempty, update_padded hempty]
      rfl
  · rename_i hne
    simp only [if_neg hne] at hends
    split
    · rename_i hforeign
      simp only [if_pos hforeign] at hends
      have hmove := movelink_confined fun junk hnone => hends junk (by rw [hnone]; rfl)
      exact hmove.modify hindex (fun _ => { orgLink with next := NO_RECORD }) junk
    · rfl

theorem linkBehindLast_confined {idx pos : Nat} (hpos : pos < n)
    (hends : forall junk,
      moveLastpos.linkBehindLast records empty idx pos (padded n data junk) ≠ none) :
    Confined n (moveLastpos.linkBehindLast records empty idx pos) data := by
  intro junk
  unfold moveLastpos.linkBehindLast at hends ⊢
  simp only [padded_of_lt hpos] at hends ⊢
  have hmove := movelink_confined fun junk hnone => hends junk (by rw [hnone]; rfl)
  exact hmove.modify hpos (fun link => { link with next := empty }) junk

theorem moveLastpos_confined (hn : records < n) (hempty : empty < n)
    (hmask : 0 < records -> forall h, myHashMask h blength records < n)
    (hle : empty <= records)
    (hends : forall junk,
      moveLastpos hashnr oldBlength blength records (padded n data junk) empty ≠ none) :
    Confined n (fun data => moveLastpos hashnr oldBlength blength records data empty)
      data := by
  intro junk
  unfold moveLastpos at hends ⊢
  simp only [padded_of_lt hn, update_padded hempty] at hends ⊢
  by_cases hlast : empty = records
  · rw [if_pos hlast, if_pos hlast]
    rfl
  · simp only [if_neg hlast] at hends ⊢
    have hpos := hmask (by omega) (hashnr (data records).data)
    generalize myHashMask (hashnr (data records).data) blength records = pos at hpos hends ⊢
    simp only [padded_of_lt hpos, update_padded hpos] at hends ⊢
    split
    · rfl
    · rename_i hown
      simp only [if_neg hown] at hends
      split
      · rename_i hforeign
        simp only [if_pos hforeign] at hends
        exact movelink_confined hends junk
      · rename_i hhome
        simp only [if_neg hhome] at hends
        split
        · rename_i hsame
          simp only [if_pos hsame] at hends
          split
          · rename_i hinner
            simp only [if_pos hinner] at hends
            exact movelink_confined hends junk
          · rename_i hhead
            simp only [if_neg hhead] at hends
            exact linkBehindLast_confined hpos hends junk
        · rename_i hother
          simp only [if_neg hother] at hends
          exact linkBehindLast_confined hpos hends junk

end Placing

/-!
## Unlinking
-/

theorem Closed.findRecord (h : Closed records data) (hn : records <= n) {record : Ptr}
    {fuel pos : Nat} {gpos : Option Nat} (hpos : pos < records) :
    findRecord (padded n data junk) record fuel gpos pos =
      findRecord data record fuel gpos pos := by
  induction fuel generalizing gpos pos with
  | zero => rfl
  | succ fuel ih =>
      have hlink : padded n data junk pos = data pos := padded_of_lt (Nat.lt_of_lt_of_le hpos hn)
      rw [DynHash.findRecord, DynHash.findRecord, hlink]
      split
      · rfl
      · split
        · rfl
        · rename_i hnext
          exact ih ((h pos hpos).resolve_left hnext)

theorem Closed.removeLink (h : Closed records data) (hn : records <= n) {gpos : Option Nat}
    {pos : Nat} (hpos : pos < records) (hgpos : forall g, gpos = some g -> g < records) :
    removeLink (padded n data junk) gpos pos =
      (padded n (removeLink data gpos pos).1 junk, (removeLink data gpos pos).2) := by
  have hlink : padded n data junk pos = data pos := padded_of_lt (Nat.lt_of_lt_of_le hpos hn)
  cases gpos with
  | some g =>
      have hg : g < n := Nat.lt_of_lt_of_le (hgpos g rfl) hn
      simp only [DynHash.removeLink, hlink, padded_of_lt hg, update_padded hg]
  | none =>
      simp only [DynHash.removeLink, hlink]
      split
      · rename_i hnext
        have hinside := (h pos hpos).resolve_left (by simpa using hnext)
        rw [padded_of_lt (Nat.lt_of_lt_of_le hinside hn),
          update_padded (Nat.lt_of_lt_of_le hpos hn)]
      · rfl

/-!
## Splitting a bucket
-/

def Split.padded (s : Split) (n : Nat) (junk : Nat -> HashLink) : Split :=
  { s with data := Foundation.padded n s.data junk }

structure Split.Inside (s : Split) (records : Nat) : Prop where
  closed : Closed records s.data
  empty : s.empty < records + 1
  gpos : s.gpos < records + 1
  gpos2 : s.gpos2 < records + 1

theorem Closed.update (h : Closed records data) {i next : Nat} (record : Ptr)
    (hnext : next = NO_RECORD ∨ next < records) :
    Closed records (Function.update data i { next := next, data := record }) := by
  intro j hj
  by_cases hji : j = i
  · rw [hji, Function.update_self]
    exact hnext
  · rw [Function.update_of_ne hji]
    exact h j hj

theorem Split.Inside.step {s : Split} (h : s.Inside records) (hsmall : records < 2 ^ 31)
    (halfbuff : Nat) (hashNr : UInt32) {pos : Nat} (hpos : pos < records) :
    (splitStep halfbuff hashNr pos s).Inside records := by
  have hnext : uint pos = NO_RECORD ∨ uint pos < records := by
    rw [uint_of_lt (by omega)]
    exact Or.inr hpos
  have hslot : pos < records + 1 := Nat.lt_succ_of_lt hpos
  unfold splitStep
  split
  · split
    · split
      · exact ⟨h.closed, hslot, h.empty, h.gpos2⟩
      · exact ⟨h.closed, h.empty, hslot, h.gpos2⟩
    · split
      · exact ⟨h.closed.update _ hnext, h.empty, hslot, h.gpos2⟩
      · exact ⟨h.closed, h.empty, hslot, h.gpos2⟩
  · split
    · exact ⟨h.closed, hslot, h.gpos, h.empty⟩
    · split
      · exact ⟨h.closed.update _ hnext, h.empty, h.gpos, hslot⟩
      · exact ⟨h.closed, h.empty, h.gpos, hslot⟩

theorem Split.Inside.step_padded {s : Split} (h : s.Inside records) (hn : records < n)
    (halfbuff : Nat) (hashNr : UInt32) {pos : Nat} (hpos : pos < records) :
    splitStep halfbuff hashNr pos (s.padded n junk) =
      (splitStep halfbuff hashNr pos s).padded n junk := by
  have hslot : pos < n := Nat.lt_trans hpos hn
  have hgpos : s.gpos < n := Nat.lt_of_lt_of_le h.gpos hn
  have hgpos2 : s.gpos2 < n := Nat.lt_of_lt_of_le h.gpos2 hn
  unfold splitStep Split.padded
  simp only [padded_of_lt hslot, update_padded hgpos, update_padded hgpos2]
  split
  · split
    · split
      · rfl
      · rfl
    · split
      · rfl
      · rfl
  · split
    · rfl
    · split
      · rfl
      · rfl

theorem Split.Inside.loop {s : Split} (h : s.Inside records) (hsmall : records < 2 ^ 31)
    (hn : records < n) (hashnr : Ptr -> UInt32) (blength halfbuff firstIndex fuel : Nat)
    {pos : Nat} (hpos : pos < records) :
    splitLoop hashnr blength records halfbuff firstIndex fuel pos (s.padded n junk) =
        (splitLoop hashnr blength records halfbuff firstIndex fuel pos s).map
          (fun s => s.padded n junk) ∧
      forall last, splitLoop hashnr blength records halfbuff firstIndex fuel pos s = some last ->
        last.Inside records := by
  induction fuel generalizing pos s with
  | zero => exact ⟨rfl, fun last hlast => by cases hlast⟩
  | succ fuel ih =>
      have hlink : (s.padded n junk).data pos = s.data pos := padded_of_lt (Nat.lt_trans hpos hn)
      have hflag : (s.padded n junk).flag = s.flag := rfl
      rw [splitLoop, splitLoop]
      simp only [hlink, hflag]
      split
      · refine ⟨rfl, ?_⟩
        intro last hlast
        cases hlast
        exact h
      · have hinside := h.step hsmall halfbuff (hashnr (s.data pos).data) hpos
        rw [h.step_padded hn halfbuff _ hpos]
        generalize splitStep halfbuff (hashnr (s.data pos).data) pos s = next at hinside ⊢
        have hlink' : (next.padded n junk).data pos = next.data pos :=
          padded_of_lt (Nat.lt_trans hpos hn)
        rw [hlink']
        split
        · rename_i hmore
          exact ih hinside ((hinside.closed pos hpos).resolve_left (by simpa using hmore))
        · refine ⟨rfl, ?_⟩
          intro last hlast
          cases hlast
          exact hinside

theorem Split.Inside.finish_padded {s : Split} (h : s.Inside records) (hn : records < n) :
    splitFinish (s.padded n junk) = Foundation.padded n (splitFinish s) junk := by
  have hgpos : s.gpos < n := Nat.lt_of_lt_of_le h.gpos hn
  have hgpos2 : s.gpos2 < n := Nat.lt_of_lt_of_le h.gpos2 hn
  unfold splitFinish Split.padded
  simp only [update_padded hgpos]
  split
  · split
    · rw [update_padded hgpos2]
    · rw [update_padded hgpos2]
  · split
    · rfl
    · rfl

theorem splitBucket_padded {hashnr : Ptr -> UInt32} {blength : Nat} (hclosed : Closed records data)
    (hsize : TableSize blength records) (hsmall : records < 2 ^ 31) (hn : records < n) :
    splitBucket hashnr blength records (padded n data junk) records =
      (splitBucket hashnr blength records data records).map
        fun split => (padded n split.1 junk, split.2) := by
  have hfirst : sizetSub records (blength >>> 1) = records - blength / 2 := by
    rw [Nat.shiftRight_one]
    exact sizetSub_of_le hsize.half_le (by omega)
  unfold splitBucket
  simp only [hfirst]
  split
  · rename_i hsome
    have hpos : records - blength / 2 < records := by
      have hne : records - blength / 2 ≠ records := by simpa using hsome
      omega
    have hstart : Split.Inside
        { data := data, flag := SplitFlag.zero, empty := records, gpos := 0,
          ptrToRec := NULL, gpos2 := 0, ptrToRec2 := NULL } records :=
      ⟨hclosed, Nat.lt_succ_self _, Nat.succ_pos _, Nat.succ_pos _⟩
    rcases hstart.loop hsmall hn hashnr blength (blength >>> 1) (records - blength / 2)
      (records + 1) hpos with ⟨hloop, hinside⟩
    rw [Split.padded] at hloop
    rw [hloop, Option.map_map, Option.map_map]
    apply Option.map_congr
    intro last hlast
    simp only [Function.comp, (hinside last hlast).finish_padded hn]
    rfl
  · rfl

/-!
## Searches
-/

section Searches

variable {content : Type _} [Readable content] {hash : MyHash content}
variable {memory now : Ptr -> content} {key : Bytes} {length : Nat}

theorem Sound.closed (h : Sound hash memory) : Closed hash.records hash.links := by
  intro i hi
  by_cases hnext : (hash.links i).next = NO_RECORD
  · exact Or.inl hnext
  · right
    exact Finset.mem_range.mp
      (Chained.home_of_next h.linked (Finset.mem_range.mpr hi) hnext).left

def Cursor (records state : Nat) : Prop :=
  state = NO_RECORD ∨ state < records

theorem Closed.firstLoop (h : Closed hash.records hash.links) (hn : hash.records <= n)
    (fuel : Nat) (flag : Bool) {idx : Nat} (hidx : idx < hash.records) :
    firstLoop (hash.padded n junk) now key length fuel flag idx =
      firstLoop hash now key length fuel flag idx := by
  induction fuel generalizing flag idx with
  | zero => rfl
  | succ fuel ih =>
      have hlink : (hash.padded n junk).links idx = hash.links idx :=
        padded_of_lt (Nat.lt_of_lt_of_le hidx hn)
      have hcmp : hashcmp (hash.padded n junk) now = hashcmp hash now := rfl
      have hmask : myHashRecMask (hash.padded n junk) now = myHashRecMask hash now := rfl
      have hblength : (hash.padded n junk).blength = hash.blength := rfl
      have hrecords : (hash.padded n junk).records = hash.records := rfl
      rw [DynHash.firstLoop, DynHash.firstLoop]
      simp only [hlink, hcmp, hmask, hblength, hrecords]
      split
      · rfl
      · split
        · rfl
        · split
          · rename_i hnext
            exact ih false ((h idx hidx).resolve_left (by simpa using hnext))
          · rfl

theorem Closed.firstLoop_cursor (h : Closed hash.records hash.links) {fuel : Nat}
    {flag : Bool} {idx : Nat} {found : Ptr × Nat} (hidx : idx < hash.records)
    (hfound : DynHash.firstLoop hash now key length fuel flag idx = some found) :
    Cursor hash.records found.2 := by
  induction fuel generalizing flag idx with
  | zero => cases hfound
  | succ fuel ih =>
      rw [DynHash.firstLoop] at hfound
      split at hfound
      · cases hfound
        exact Or.inr hidx
      · split at hfound
        · cases hfound
          exact Or.inl rfl
        · split at hfound
          · rename_i hnext
            exact ih ((h idx hidx).resolve_left (by simpa using hnext)) hfound
          · cases hfound
            exact Or.inl rfl

theorem Closed.nextLoop (h : Closed hash.records hash.links) (hn : hash.records <= n)
    (fuel : Nat) {idx : Nat} (hidx : Cursor hash.records idx) :
    nextLoop (hash.padded n junk) now key length fuel idx =
      nextLoop hash now key length fuel idx := by
  induction fuel generalizing idx with
  | zero => rfl
  | succ fuel ih =>
      have hcmp : hashcmp (hash.padded n junk) now = hashcmp hash now := rfl
      rw [DynHash.nextLoop, DynHash.nextLoop]
      simp only [hcmp]
      split
      · rename_i hsome
        have hlt := hidx.resolve_left (by simpa using hsome)
        have hlink : (hash.padded n junk).links idx = hash.links idx :=
          padded_of_lt (Nat.lt_of_lt_of_le hlt hn)
        simp only [hlink]
        split
        · rfl
        · exact ih (h idx hlt)
      · rfl

theorem Closed.nextLoop_cursor (h : Closed hash.records hash.links) {fuel idx : Nat}
    {found : Ptr × Nat} (hidx : Cursor hash.records idx)
    (hfound : DynHash.nextLoop hash now key length fuel idx = some found) :
    Cursor hash.records found.2 := by
  induction fuel generalizing idx with
  | zero => cases hfound
  | succ fuel ih =>
      rw [DynHash.nextLoop] at hfound
      split at hfound
      · rename_i hsome
        have hlt := hidx.resolve_left (by simpa using hsome)
        simp only at hfound
        split at hfound
        · cases hfound
          exact Or.inr hlt
        · exact ih (h idx hlt) hfound
      · cases hfound
        exact Or.inl rfl

end Searches

end DynHash
end MyLibs
