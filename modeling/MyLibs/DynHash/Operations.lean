import MyLibs.DynHash.Deletion
import MyLibs.DynHash.Lookup

/-!
# The operations on a sound table

Each operation ends, keeps the table sound, and changes the bag of its records
by what it is asked for.
-/

namespace MyLibs
namespace DynHash

open Foundation

section Contents

variable {content : Type _} {hash : MyHash content}

def MyHash.contents (hash : MyHash content) : Multiset Ptr :=
  contentsOf (Finset.range hash.records) hash.links

theorem mem_contents {record : Ptr} :
    record ∈ hash.contents <->
      exists i, i < hash.records ∧ (hash.links i).data = record := by
  unfold MyHash.contents
  rw [mem_contentsOf]
  constructor
  · rintro ⟨i, hi, hrecord⟩
    exact ⟨i, Finset.mem_range.mp hi, hrecord⟩
  · rintro ⟨i, hi, hrecord⟩
    exact ⟨i, Finset.mem_range.mpr hi, hrecord⟩

theorem records_pos {record : Ptr} (h : record ∈ hash.contents) : 0 < hash.records := by
  rcases mem_contents.mp h with ⟨i, hi, _⟩
  exact Nat.zero_lt_of_lt hi

theorem contents_eq_map_element :
    hash.contents = (Multiset.range hash.records).map (myHashElement hash) := by
  unfold MyHash.contents contentsOf
  apply Multiset.map_congr rfl
  intro i hi
  have hlt : i < hash.records := Multiset.mem_range.mp hi
  unfold myHashElement
  rw [if_pos hlt]

end Contents

variable {content : Type _} [Readable content]
variable {hash hash' : MyHash content} {memory memory' : Ptr -> content}

/-!
## Insert
-/

/-- An insertion fails on a duplicate key or without memory, and changes nothing
then; otherwise the table is sound and has one more record. -/
theorem myHashInsert_spec (h : Sound hash memory) (record : Ptr)
    (block : Option HashLink) (hroom : hash.records + 1 < 2 ^ 31) :
    (myHashInsert hash memory record block = some (1, hash) ∧
      (duplicateKey hash memory record = some true ∨ block = none)) ∨
    exists hash', myHashInsert hash memory record block = some (0, hash') ∧
      Sound hash' memory ∧ hash'.contents = record ::ₘ hash.contents ∧
      duplicateKey hash memory record = some false := by
  rcases h.duplicateKey_total record with ⟨duplicate, hduplicate⟩
  unfold myHashInsert
  rw [hduplicate, Option.bind_some]
  cases duplicate with
  | true =>
      left
      exact ⟨rfl, Or.inl rfl⟩
  | false =>
      cases block with
      | none =>
          left
          exact ⟨rfl, Or.inr rfl⟩
      | some garbage =>
          right
          have helements := h.elements
          have hstart : Linked (recHashnr hash memory) hash.blength hash.records
              (Function.update hash.links hash.records garbage)
              (Finset.range hash.records) := by
            apply h.linked.congr
            intro i hi
            exact Function.update_of_ne (Nat.ne_of_lt (Finset.mem_range.mp hi)) _ _
          rcases splitBucket_spec h.size hroom hstart with
            ⟨data₁, empty, hsplit, hfree, hkept⟩
          rcases placeRecord_spec record hfree with
            ⟨data₂, hplace, hlinked, hcontents⟩
          simp only [myArrayAlloc, Option.map_some, helements, Bool.false_eq_true,
            if_false]
          rw [hsplit, Option.bind_some, hplace]
          refine ⟨_, rfl, ⟨hroom, rfl, h.size.grow, ?_⟩, ?_, trivial⟩
          · refine Chained.congr hlinked ?_ (fun _ _ => rfl)
            intro i _hi
            exact myHashMask_grow h.size (by omega)
          · have hbefore : contentsOf (Finset.range hash.records)
                (Function.update hash.links hash.records garbage) = hash.contents := by
              apply contentsOf_congr
              intro i hi
              rw [Function.update_of_ne (Nat.ne_of_lt (Finset.mem_range.mp hi))]
            rw [← hbefore, ← hkept]
            exact hcontents

theorem myHashInsert_records {record : Ptr} {block : Option HashLink} {ret : Nat}
    (h : myHashInsert hash memory record block = some (ret, hash')) :
    (ret = 1 ∧ hash' = hash) ∨ hash'.records = hash.records + 1 := by
  unfold myHashInsert at h
  rcases Option.bind_eq_some_iff.mp h with ⟨duplicate, _, h⟩
  cases duplicate with
  | true =>
      left
      cases h
      exact ⟨rfl, rfl⟩
  | false =>
      simp only [Bool.false_eq_true, if_false] at h
      split at h
      · left
        cases h
        exact ⟨rfl, rfl⟩
      · right
        rcases Option.bind_eq_some_iff.mp h with ⟨split, _, h⟩
        rcases Option.map_eq_some_iff.mp h with ⟨data, _, h⟩
        cases h
        rfl

/-!
## Delete
-/

/-- With a link taken out, the table is ready to give up its last slot. -/
theorem LinkRemoved.shrinking (h : Sound hash memory) {n x empty : Nat} {record : Ptr}
    {data : Nat -> HashLink} (hn : hash.records = n + 1)
    (hremoved : LinkRemoved (recHashnr hash memory) hash.blength hash.records hash.links
      record x data empty) :
    Shrinking (recHashnr hash memory) hash.blength
      (if n < hash.blength >>> 1 then hash.blength >>> 1 else hash.blength) n data empty := by
  have hbound := h.bound
  have hsize := h.size
  have hlt := hremoved.empty_lt
  have hlinked := hremoved.linked
  rw [hn] at hbound hsize hlt hlinked
  exact ⟨hbound, hsize.shrink, fun _ => (myHashMask_shrink hsize (by omega)).symm, hlt, hlinked⟩

/-- A deletion removes one occurrence of the record and gives it to the free
function, or finds that there is none. -/
theorem myHashDelete_spec (h : Sound hash memory) (record : Ptr) :
    (myHashDelete hash memory record = some (1, hash, []) ∧
      record ∉ hash.contents) ∨
    exists hash', myHashDelete hash memory record =
        some (0, hash', if hash.free then [record] else []) ∧
      Sound hash' memory ∧ hash.contents = record ::ₘ hash'.contents := by
  have hbound := h.bound
  unfold myHashDelete deleteBucket
  by_cases hempty : hash.records = 0
  · left
    rw [if_pos hempty]
    refine ⟨rfl, ?_⟩
    intro hmem
    exact Nat.ne_of_gt (records_pos hmem) hempty
  · rw [if_neg hempty]
    have hpos := Nat.pos_of_ne_zero hempty
    have hblength : uint hash.blength = hash.blength :=
      uint_of_lt (h.size.blength_lt hbound)
    simp only [hblength]
    rcases findRecord_spec h.linked hbound
      (h.mask_lt hpos (recHashnr hash memory record)) with
      ⟨hsearch, habsent⟩ | ⟨gpos, x, hsearch, hfound⟩
    · left
      rw [hsearch]
      exact ⟨rfl, habsent⟩
    · right
      rw [hsearch, Option.bind_some]
      rcases removeLink_spec h.linked hbound hfound with
        ⟨data₁, empty, hremoved, hleft⟩
      rcases Nat.exists_eq_succ_of_ne_zero hempty with ⟨n, hn⟩
      have hpred : hash.records - 1 = n := by omega
      have hshrinking := hleft.shrinking h hn
      have hempty32 : empty < 2 ^ 32 := Nat.lt_trans hleft.empty_lt (by omega)
      rcases moveLastpos_spec hshrinking with ⟨data₂, hmove, hlinked, hcontents⟩
      simp only [hremoved, hpred, uint_of_lt hempty32]
      rw [hmove]
      refine ⟨_, rfl, ⟨by show n < 2 ^ 31; omega, ?_, hshrinking.size, hlinked⟩, ?_⟩
      · simp [myArrayPop, h.elements, hn]
      · have hafter := hleft.contents
        rw [hn] at hafter
        rw [← hcontents] at hafter
        unfold MyHash.contents
        rw [hn]
        exact hafter

/-!
## Update
-/

/-- The table has the changed record once, or its hash value stays the same. -/
def HoldsOnce (hash : MyHash content) (memory : Ptr -> content) (record : Ptr)
    (newContent : content) : Prop :=
  hash.contents.count record = 1 ∨
    recHashnr hash (Function.update memory record newContent) record =
      recHashnr hash memory record

/-- `my_hash_update` hashes the old key with its own length, also if that is 0. -/
def HashesOldKey (hash : MyHash content) (memory : Ptr -> content) (record : Ptr)
    (_newContent : content) : Prop :=
  (myHashKey hash (memory record) false).2 ≠ 0 ∨ hash.keyLength = 0

def UpdatesOneRecord (hash : MyHash content) (memory : Ptr -> content) (record : Ptr)
    (newContent : content) : Prop :=
  HoldsOnce hash memory record newContent ∧ HashesOldKey hash memory record newContent

theorem recHashnr_update {record other : Ptr} {newContent : content}
    (h : other ≠ record) :
    recHashnr hash (Function.update memory record newContent) other =
      recHashnr hash memory other := by
  unfold recHashnr
  rw [Function.update_of_ne h]

theorem hashCalc_oldKey {record : Ptr} {newContent : content}
    (h : HashesOldKey hash memory record newContent) :
    hashCalc hash (myHashKey hash (memory record) false).1
        (if (myHashKey hash (memory record) false).2 != 0
          then (myHashKey hash (memory record) false).2 else hash.keyLength) =
      recHashnr hash memory record := by
  unfold recHashnr
  unfold HashesOldKey at h
  generalize (myHashKey hash (memory record) false) = old at h ⊢
  by_cases hzero : old.2 = 0
  · have hlength := h.resolve_left (not_not.mpr hzero)
    simp [hzero, hlength]
  · simp [hzero]

/-- Where the changed record goes to another bucket, the table has it once. -/
theorem HoldsOnce.count_eq_one {record : Ptr} {newContent : content}
    (h : HoldsOnce hash memory record newContent)
    (hmoved : myHashMask (recHashnr hash memory record) hash.blength hash.records ≠
      myHashMask (recHashnr hash (Function.update memory record newContent) record)
        hash.blength hash.records) : hash.contents.count record = 1 := by
  refine h.resolve_right fun hhash => hmoved ?_
  rw [hhash]

theorem LinkRemoved.same_data {hashnr : Ptr -> UInt32} {blength size x empty : Nat}
    {gpos : Option Nat} {data data' : Nat -> HashLink} {record : Ptr}
    (h : LinkRemoved hashnr blength size data record x data' empty)
    (hfound : Found hashnr blength size data record gpos x) (hx : empty = x) :
    (data' empty).data = (data x).data := by
  rw [hfound.data_eq, hx]
  exact h.stale hx

section Rekeyed

variable {now : Ptr -> content} {record : Ptr}

theorem Sound.stays (h : Sound hash memory)
    (hother : forall other, other ≠ record ->
      recHashnr hash now other = recHashnr hash memory other)
    (hsame : myHashMask (recHashnr hash memory record) hash.blength hash.records =
      myHashMask (recHashnr hash now record) hash.blength hash.records) :
    Sound hash now := by
  refine ⟨h.bound, h.elements, h.size, Chained.congr h.linked ?_ (fun _ _ => rfl)⟩
  intro i _hi
  unfold homeOf
  by_cases hi : (hash.links i).data = record
  · rw [hi]
    exact hsame.symm
  · rw [hother _ hi]

theorem LinkRemoved.oneFree (h : Sound hash memory) (hpos : 0 < hash.records)
    (hother : forall other, other ≠ record ->
      recHashnr hash now other = recHashnr hash memory other)
    (honce : hash.contents.count record = 1) {x empty : Nat} {data : Nat -> HashLink}
    (hremoved : LinkRemoved (recHashnr hash memory) hash.blength hash.records hash.links
      record x data empty) :
    OneFree (recHashnr hash now) hash.blength hash.records data empty := by
  refine ⟨h.bound, hremoved.empty_lt, fun _ => h.mask_lt hpos _,
    Chained.congr hremoved.linked ?_ (fun _ _ => rfl)⟩
  intro i hi
  -- no other slot has the changed record
  have hgone : (data i).data ≠ record := by
    intro hirecord
    have hmem := mem_contentsOf.mpr ⟨i, hi, hirecord⟩
    unfold MyHash.contents at honce
    rw [hremoved.contents, Multiset.count_cons_self] at honce
    have hnone := Multiset.count_pos.mpr hmem
    omega
  unfold homeOf
  rw [hother _ hgone]

end Rekeyed

/-- An update of a record of the table refuses a duplicate, and leaves the table
alone then; otherwise it keeps the records of the table, which is sound for the new
key. -/
theorem myHashUpdate_spec (h : Sound hash memory) {record : Ptr}
    (hrecord : record ∈ hash.contents) {newContent : content}
    (hupdates : UpdatesOneRecord hash memory record newContent) :
    (duplicateUpdate hash (Function.update memory record newContent) record =
        some true ∧
      myHashUpdate hash (Function.update memory record newContent) record
        (myHashKey hash (memory record) false).1
        (myHashKey hash (memory record) false).2 = some (1, hash)) ∨
    duplicateUpdate hash (Function.update memory record newContent) record =
        some false ∧
      exists hash', myHashUpdate hash (Function.update memory record newContent) record
        (myHashKey hash (memory record) false).1
        (myHashKey hash (memory record) false).2 = some (0, hash') ∧
      Sound hash' (Function.update memory record newContent) ∧
      hash'.contents = hash.contents ∧ hash'.records = hash.records := by
  have hbound := h.bound
  have hpos := records_pos hrecord
  have hmoved := hupdates.left.count_eq_one
  generalize hnow : Function.update memory record newContent = now at hmoved ⊢
  rcases h.duplicateUpdate_total now record with ⟨duplicate, hduplicate⟩
  unfold myHashUpdate updateBucket
  rw [hduplicate, Option.bind_some, hashCalc_oldKey hupdates.right]
  cases duplicate with
  | true =>
      left
      exact ⟨rfl, rfl⟩
  | false =>
      right
      refine ⟨rfl, ?_⟩
      have hblength : uint hash.blength = hash.blength :=
        uint_of_lt (h.size.blength_lt hbound)
      have hrecords : uint hash.records = hash.records := uint_of_lt (by omega)
      have hother : forall other, other ≠ record ->
          recHashnr hash now other = recHashnr hash memory other := by
        intro other hne
        rw [← hnow]
        exact recHashnr_update hne
      simp only [Bool.false_eq_true, if_false, hblength, hrecords]
      by_cases hsame : myHashMask (recHashnr hash memory record) hash.blength
          hash.records = myHashMask (recHashnr hash now record) hash.blength hash.records
      · -- the bucket is the same, and so is the table
        rw [if_pos hsame]
        exact ⟨hash, rfl, h.stays hother hsame, rfl, rfl⟩
      · rw [if_neg hsame]
        rcases findRecord_spec h.linked hbound
          (h.mask_lt hpos (recHashnr hash memory record)) with
          ⟨_, habsent⟩ | ⟨gpos, x, hsearch, hfound⟩
        · exact absurd hrecord habsent
        · rw [hsearch, Option.bind_some]
          rcases removeLink_spec h.linked hbound hfound with
            ⟨data₁, empty, hremoved, hleft⟩
          have hfree := hleft.oneFree h hpos hother (hmoved hsame)
          rcases relink_spec hfree (hleft.same_data hfound) with
            ⟨data₂, hrelink, hlinked', hcontents'⟩
          rw [hfound.data_eq] at hrelink hcontents'
          simp only [hremoved]
          rw [hrelink]
          refine ⟨_, rfl, ⟨hbound, h.elements, h.size, hlinked'⟩, ?_, rfl⟩
          exact hcontents'.trans hleft.contents.symm

/-!
## The other operations
-/

theorem myHashReplace_sound (h : Sound hash memory) {currentRecord : Nat}
    {newRow : Ptr}
    (hvalid : currentRecord ≠ NO_RECORD -> recHashnr hash memory newRow =
      recHashnr hash memory (hash.links currentRecord).data) :
    Sound (myHashReplace hash currentRecord newRow) memory := by
  unfold myHashReplace
  by_cases hnone : currentRecord = NO_RECORD
  · rw [if_neg (by simp [hnone])]
    exact h
  · rw [if_pos (by simpa using hnone)]
    have hlinked : Linked (recHashnr hash memory) hash.blength hash.records
        (Function.update hash.links currentRecord
          { hash.links currentRecord with data := newRow })
        (Finset.range hash.records) := by
      refine Chained.congr h.linked ?_ ?_
      · intro i _hi
        unfold homeOf
        by_cases hi : i = currentRecord
        · rw [hi, Function.update_self, hvalid hnone]
        · rw [Function.update_of_ne hi]
      · intro i _hi
        unfold nextOf
        by_cases hi : i = currentRecord
        · rw [hi, Function.update_self]
        · rw [Function.update_of_ne hi]
    exact ⟨h.bound, h.elements, h.size, hlinked⟩

theorem myHashReset_sound : Sound (myHashReset hash).1 memory where
  bound := by simp [myHashReset, myHashFreeElements]
  elements := rfl
  size := ⟨⟨0, rfl⟩, by simp [myHashReset], by
    simp [myHashReset, myHashFreeElements]⟩
  linked := Chained.empty

end DynHash
end MyLibs
