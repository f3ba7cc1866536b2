import Mathlib.Data.Fintype.Basic
import MyLibs.DynHash.Runs

/-!
# Properties of every reachable table

The chains partition the slots, the operations change the bag of records by
what they are asked for, and lookups are exact. All three rest on updates being
called for a record that the table has once, with an old key that is hashed the
way it was when the record was linked.
-/

namespace MyLibs
namespace DynHash

open Foundation

variable {content : Type _} [Readable content]

/-- Every slot of the array is on exactly one chain, that of its bucket. -/
structure PartitionedByChains (t : Table content) : Prop where
  elements : t.hash.array.elements = t.hash.records
  size : TableSize t.hash.blength t.hash.records
  chains : exists chain : Nat -> List Nat,
    (forall i, i < t.hash.records -> exists b, i ∈ chain b ∧
      forall b', i ∈ chain b' -> b' = b) ∧
    forall b, chain b ≠ [] ->
      Segment (nextOf t.hash.links) b (chain b) NO_RECORD ∧ (chain b).Nodup ∧
      forall i, i ∈ chain b -> i < t.hash.records ∧
        myHashRecMask t.hash t.memory (t.hash.links i) t.hash.blength
          t.hash.records = b

theorem Sound.partitioned {t : Table content} (h : Sound t.hash t.memory) :
    PartitionedByChains t := by
  classical
  refine ⟨h.elements, h.size, ?_⟩
  have hchains : forall b, exists path : List Nat, (path = [] ∧
        forall i, i ∈ Finset.range t.hash.records ->
          homeOf (recHashnr t.hash t.memory) t.hash.blength t.hash.records
            t.hash.links i ≠ b) ∨
      IsChain NO_RECORD (nextOf t.hash.links)
        (homeOf (recHashnr t.hash t.memory) t.hash.blength t.hash.records
          t.hash.links) (Finset.range t.hash.records) b path := by
    intro b
    by_cases hsome : exists i, i ∈ Finset.range t.hash.records ∧
        homeOf (recHashnr t.hash t.memory) t.hash.blength t.hash.records
          t.hash.links i = b
    · rcases hsome with ⟨i, hi, hhome⟩
      rcases h.linked i hi with ⟨path, hpath⟩
      rw [hhome] at hpath
      exact ⟨path, Or.inr hpath⟩
    · refine ⟨[], Or.inl ⟨rfl, ?_⟩⟩
      intro i hi hhome
      exact hsome ⟨i, hi, hhome⟩
  choose chain hchain using hchains
  have hmem : forall b i, i ∈ chain b <-> i ∈ Finset.range t.hash.records ∧
      homeOf (recHashnr t.hash t.memory) t.hash.blength t.hash.records
        t.hash.links i = b := by
    intro b i
    rcases hchain b with ⟨hempty, hnone⟩ | hpath
    · rw [hempty]
      constructor
      · intro hi
        exact absurd hi List.not_mem_nil
      · rintro ⟨hi, hhome⟩
        exact absurd hhome (hnone i hi)
    · exact hpath.mem_iff i
  refine ⟨chain, ?_, ?_⟩
  · intro i hi
    refine ⟨_, (hmem _ i).mpr ⟨Finset.mem_range.mpr hi, rfl⟩, ?_⟩
    intro b' hib'
    exact ((hmem b' i).mp hib').right.symm
  · intro b hne
    rcases hchain b with ⟨hempty, _⟩ | hpath
    · exact absurd hempty hne
    · refine ⟨hpath.segment, hpath.nodup h.nil_not_mem, ?_⟩
      intro i hi
      have hfacts := (hmem b i).mp hi
      exact ⟨Finset.mem_range.mp hfacts.left, hfacts.right⟩

/-- In every reachable table the chains partition the slots by bucket. -/
theorem reachable_partitionedByChains {t : Table content}
    (h : TableReachable UpdatesOneRecord t) : PartitionedByChains t :=
  (sound_reachable h).partitioned

/-!
## Two runs that break the chains

Keys of at most one byte, which are their own hash values.
-/

section Examples

def twoBytes (first second : UInt8) : Bytes :=
  fun i => if i = 0 then first else second

/-- The first byte of a record is the length of its key, 0 or 1, and the second
one is the key. -/
def shortKey (record : Bytes) (_first : Bool) : Bytes × Nat :=
  (fun i => record (i + 1), if record 0 = 0 then 0 else 1)

/-- The empty table, and the records 8 with key 0, 16 with key 5 and 24 with an
empty key. -/
def shortKeys : Table Bytes where
  hash := myHashInit (fun key length => if length = 0 then 0 else (key 0).toUInt32)
    (fun key length key' _ => if length = 0 ∨ key 0 = key' 0 then 0 else 1)
    0 1 (some shortKey) false 0 (fun _ => { next := 0, data := NULL })
  memory := fun record =>
    if record = 8 then twoBytes 1 0
    else if record = 16 then twoBytes 1 5
    else twoBytes 0 1

def freshSlot : Option HashLink :=
  some { next := 0, data := NULL }

theorem shortKeys_reachable
    {mayUpdate : MyHash Bytes -> (Ptr -> Bytes) -> Ptr -> Bytes -> Prop} :
    TableReachable mayUpdate shortKeys :=
  ⟨shortKeys, ⟨rfl, rfl, rfl⟩, Relation.ReflTransGen.refl⟩

def insertedTwice : Table Bytes :=
  (shortKeys.after (.insert 8 freshSlot)).after (.insert 8 freshSlot)

def updatedHalf : Table Bytes :=
  insertedTwice.after (.update 8 (twoBytes 1 1))

theorem updatedHalf_reachable : TableReachable HashesOldKey updatedHalf := by
  have hone : TableReachable HashesOldKey (shortKeys.after (.insert 8 freshSlot)) :=
    shortKeys_reachable.after _ trivial (by decide) (by decide)
  have htwo : TableReachable HashesOldKey insertedTwice :=
    hone.after _ trivial (by decide) (by decide)
  refine htwo.after _ ⟨?_, ?_⟩ (by decide) (by decide)
  · exact mem_contents.mpr ⟨0, by decide, by decide⟩
  · exact Or.inl (by decide)

def withEmptyKey : Table Bytes :=
  (shortKeys.after (.insert 24 freshSlot)).after (.insert 16 freshSlot)

def updatedEmptyKey : Table Bytes :=
  withEmptyKey.after (.update 24 (twoBytes 1 1))

theorem updatedEmptyKey_reachable : TableReachable HoldsOnce updatedEmptyKey := by
  have hone : TableReachable HoldsOnce (shortKeys.after (.insert 24 freshSlot)) :=
    shortKeys_reachable.after _ trivial (by decide) (by decide)
  have htwo : TableReachable HoldsOnce withEmptyKey :=
    hone.after _ trivial (by decide) (by decide)
  refine htwo.after _ ⟨?_, ?_⟩ (by decide) (by decide)
  · exact mem_contents.mpr ⟨0, by decide, by decide⟩
  · exact Or.inl (by decide)

theorem not_partitionedByChains {t : Table content} (hrecords : t.hash.records = 2)
    (hbucket : myHashRecMask t.hash t.memory (t.hash.links 0) t.hash.blength
      t.hash.records = 1)
    (hend : (t.hash.links 1).next = NO_RECORD) : ¬ PartitionedByChains t := by
  rintro ⟨_, _, chain, hslots, hchains⟩
  rcases hslots 0 (by omega) with ⟨b, hzero, _⟩
  rcases hchains b (List.ne_nil_of_mem hzero) with ⟨hsegment, _, hmembers⟩
  have hb : 1 = b := hbucket.symm.trans (hmembers 0 hzero).right
  subst hb
  rcases hsegment.eq_cons (List.ne_nil_of_mem hzero) with ⟨tail, htail⟩
  rw [htail] at hsegment hmembers hzero
  have hnext : nextOf t.hash.links 1 = NO_RECORD := hend
  have hrest := hsegment.right
  rw [hnext] at hrest
  cases tail with
  | nil => exact absurd hzero (by decide)
  | cons j tail =>
      have hj := (hmembers j (by simp)).left
      rw [← hrest.left, hrecords] at hj
      exact absurd hj (by decide)

/-- Neither of the two conditions on updates can be left out. -/
theorem partitionedByChains_fails :
    (exists t : Table Bytes, TableReachable UpdatesAnyRecord t ∧
      TableReachable HashesOldKey t ∧ ¬ PartitionedByChains t) ∧
    (exists t : Table Bytes, TableReachable UpdatesAnyRecord t ∧
      TableReachable HoldsOnce t ∧ ¬ PartitionedByChains t) :=
  ⟨⟨updatedHalf, updatedHalf_reachable.mono fun _ _ _ _ _ => trivial,
      updatedHalf_reachable, not_partitionedByChains (by decide)
        (by decide) (by decide)⟩,
    ⟨updatedEmptyKey, updatedEmptyKey_reachable.mono fun _ _ _ _ _ => trivial,
      updatedEmptyKey_reachable, not_partitionedByChains (by decide)
        (by decide) (by decide)⟩⟩

theorem withEmptyKey_reachable : TableReachable UpdatesOneRecord withEmptyKey := by
  have hone : TableReachable UpdatesOneRecord
      (shortKeys.after (.insert 24 freshSlot)) :=
    shortKeys_reachable.after _ trivial (by decide) (by decide)
  exact hone.after _ trivial (by decide) (by decide)

def threeKeys : Table Bytes :=
  withEmptyKey.after (.insert 8 freshSlot)

def rekeyed : Table Bytes :=
  threeKeys.after (.update 16 (twoBytes 1 2))

def relinked : Table Bytes :=
  rekeyed.after (.delete 24)

theorem threeKeys_reachable : TableReachable UpdatesOneRecord threeKeys :=
  withEmptyKey_reachable.after _ trivial (by decide) (by decide)

theorem threeKeys_updates : UpdatesOneRecord threeKeys.hash threeKeys.memory 16 (twoBytes 1 2) :=
  ⟨Or.inl (by decide), Or.inl (by decide)⟩

theorem threeKeys_holds : 16 ∈ threeKeys.hash.contents :=
  mem_contents.mpr ⟨1, by decide, by decide⟩

theorem rekeyed_reachable : TableReachable UpdatesOneRecord rekeyed :=
  threeKeys_reachable.after _ ⟨threeKeys_holds, threeKeys_updates⟩ (by decide)
    (by decide)

theorem relinked_reachable : TableReachable UpdatesOneRecord relinked :=
  rekeyed_reachable.after _ trivial (by decide) (by decide)

theorem reachable_partitionedByChains_relinked :
    PartitionedByChains rekeyed ∧ PartitionedByChains relinked :=
  ⟨reachable_partitionedByChains rekeyed_reachable,
    reachable_partitionedByChains relinked_reachable⟩

end Examples

/-!
## The bag of records
-/

/-- In every reachable table the records are those `my_hash_element` enumerates,
and the three operations change the bag by the one record they are called for,
or leave the table alone. -/
theorem operations_change_one_record {t : Table content}
    (h : TableReachable UpdatesOneRecord t) :
    t.hash.contents =
        (Multiset.range t.hash.records).map (myHashElement t.hash) ∧
    (forall record block, t.hash.records + 1 < 2 ^ 31 ->
      (myHashInsert t.hash t.memory record block = some (1, t.hash) ∧
        (duplicateKey t.hash t.memory record = some true ∨ block = none)) ∨
      exists hash', myHashInsert t.hash t.memory record block = some (0, hash') ∧
        hash'.contents = record ::ₘ t.hash.contents) ∧
    (forall record,
      (record ∉ t.hash.contents ∧
        myHashDelete t.hash t.memory record = some (1, t.hash, [])) ∨
      (record ∈ t.hash.contents ∧ exists hash',
        myHashDelete t.hash t.memory record =
          some (0, hash', if t.hash.free then [record] else []) ∧
        t.hash.contents = record ::ₘ hash'.contents)) ∧
    forall record newContent, record ∈ t.hash.contents ->
      UpdatesOneRecord t.hash t.memory record newContent ->
      exists ret hash',
        myHashUpdate t.hash (Function.update t.memory record newContent) record
          (myHashKey t.hash (t.memory record) false).1
          (myHashKey t.hash (t.memory record) false).2 = some (ret, hash') ∧
        hash'.contents = t.hash.contents ∧ (ret = 1 ∧ hash' = t.hash ∨ ret = 0) := by
  have hsound := sound_reachable h
  refine ⟨contents_eq_map_element, ?_, ?_, ?_⟩
  · intro record block hroom
    rcases myHashInsert_spec hsound record block hroom with
      hrefused | ⟨hash', hinsert, _, hcontents, _⟩
    · exact Or.inl hrefused
    · exact Or.inr ⟨hash', hinsert, hcontents⟩
  · intro record
    rcases myHashDelete_spec hsound record with
      ⟨hdelete, habsent⟩ | ⟨hash', hdelete, _, hcontents⟩
    · exact Or.inl ⟨habsent, hdelete⟩
    · right
      refine ⟨?_, hash', hdelete, hcontents⟩
      rw [hcontents]
      exact Multiset.mem_cons_self record _
  · intro record newContent hrecord hupdates
    rcases myHashUpdate_spec hsound hrecord hupdates with
      ⟨_, hrefused⟩ | ⟨_, hash', hupdate, _, hcontents, _⟩
    · exact ⟨1, t.hash, hrefused, rfl, Or.inl ⟨rfl, rfl⟩⟩
    · exact ⟨0, hash', hupdate, hcontents, Or.inr rfl⟩

/-- The record 8 is still in the table after one of its two slots was deleted, but
no longer found. -/
def deletedOnce : Table Bytes :=
  (updatedHalf.after (.insert 16 freshSlot)).after (.delete 8)

theorem deletedOnce_reachable : TableReachable HashesOldKey deletedOnce := by
  have hthree : TableReachable HashesOldKey
      (updatedHalf.after (.insert 16 freshSlot)) :=
    updatedHalf_reachable.after _ trivial (by decide) (by decide)
  exact hthree.after _ trivial (by decide) (by decide)

/-- Without one of the two conditions on updates, `my_hash_delete` can miss a
record of the table. -/
theorem myHashDelete_misses :
    (exists t : Table Bytes, TableReachable UpdatesAnyRecord t ∧
      TableReachable HashesOldKey t ∧ 8 ∈ t.hash.contents ∧
      (myHashDelete t.hash t.memory 8).map Prod.fst = some 1) ∧
    (exists t : Table Bytes, TableReachable UpdatesAnyRecord t ∧
      TableReachable HoldsOnce t ∧ 24 ∈ t.hash.contents ∧
      (myHashDelete t.hash t.memory 24).map Prod.fst = some 1) :=
  ⟨⟨deletedOnce, deletedOnce_reachable.mono fun _ _ _ _ _ => trivial,
      deletedOnce_reachable, mem_contents.mpr ⟨0, by decide, by decide⟩,
      by decide⟩,
    ⟨updatedEmptyKey, updatedEmptyKey_reachable.mono fun _ _ _ _ _ => trivial,
      updatedEmptyKey_reachable,
      mem_contents.mpr ⟨0, by decide, by decide⟩, by decide⟩⟩

theorem operations_change_one_record_threeKeys :
    (exists hash', myHashInsert threeKeys.hash threeKeys.memory 32 freshSlot = some (0, hash') ∧
      hash'.contents = 32 ::ₘ threeKeys.hash.contents) ∧
    (exists hash', myHashDelete threeKeys.hash threeKeys.memory 24 = some (0, hash', []) ∧
      threeKeys.hash.contents = 24 ::ₘ hash'.contents) ∧
    exists hash', myHashUpdate threeKeys.hash
        (Function.update threeKeys.memory 16 (twoBytes 1 2)) 16
        (myHashKey threeKeys.hash (threeKeys.memory 16) false).1
        (myHashKey threeKeys.hash (threeKeys.memory 16) false).2 = some (0, hash') ∧
      hash'.contents = threeKeys.hash.contents := by
  rcases operations_change_one_record threeKeys_reachable with ⟨_, hinserts, hdeletes, hupdates⟩
  refine ⟨?_, ?_, ?_⟩
  · rcases hinserts 32 freshSlot (by decide) with ⟨_, hduplicate | hnone⟩ | hinserted
    · exact absurd hduplicate (by decide)
    · exact absurd hnone (by decide)
    · exact hinserted
  · rcases hdeletes 24 with ⟨habsent, _⟩ | ⟨_, hash', hdelete, hcontents⟩
    · exact absurd (mem_contents.mpr ⟨2, by decide, by decide⟩) habsent
    · exact ⟨hash', hdelete, hcontents⟩
  · rcases hupdates 16 _ threeKeys_holds threeKeys_updates with
      ⟨ret, hash', hupdate, hcontents, ⟨hone, _⟩ | hzero⟩
    · have hret : (myHashUpdate threeKeys.hash
          (Function.update threeKeys.memory 16 (twoBytes 1 2)) 16
          (myHashKey threeKeys.hash (threeKeys.memory 16) false).1
          (myHashKey threeKeys.hash (threeKeys.memory 16) false).2).map Prod.fst = some 0 := by
        decide
      rw [hupdate, hone] at hret
      cases hret
    · rw [hzero] at hupdate
      exact ⟨hash', hupdate, hcontents⟩

/-!
## Lookups
-/

/-- In every reachable table a search finds a record with the key if there is one,
and the loop over `my_hash_first` and `my_hash_next` meets each of them once,
then ends. -/
theorem lookup_exact {t : Table content} (h : TableReachable UpdatesOneRecord t)
    (hhash : HashesAgree t.hash) (key : Bytes) {length : Nat} (hlength : length ≠ 0) :
    (exists found, myHashSearch t.hash t.memory key length = some found ∧
      myHashSearchUsingHashValue t.hash t.memory (hashCalc t.hash key length) key
        length = some found ∧
      ((exists i, i < t.hash.records ∧
          t.hash.hasKey t.memory key length i = true ∧
          (t.hash.links i).data = found) ∨
        (forall i, i < t.hash.records ->
          t.hash.hasKey t.memory key length i = false) ∧ found = NULL)) ∧
    exists slots : List Nat, slots.Nodup ∧
      (forall i, i ∈ slots <-> i < t.hash.records ∧
        t.hash.hasKey t.memory key length i = true) ∧
      (myHashFirst t.hash t.memory key length 0).bind
          (matchesFrom t.hash t.memory key length (t.hash.records + 1)) =
        some (slots.map (fun i => (t.hash.links i).data) ++ [NULL]) := by
  have hsound := sound_reachable h
  rcases hsound.search_slots hhash key hlength with ⟨path, hnodup, hslots, hfirst, hall⟩
  refine ⟨hsound.search_spec hhash key hlength,
    path.filter (t.hash.hasKey t.memory key length), hnodup.filter _, hslots, ?_⟩
  rw [hsound.first_eq_using_hash_value key hlength, hfirst]
  exact hall

theorem shortKeys_hashesAgree {hash : MyHash Bytes}
    (hsame : SameKeys shortKeys.hash hash) : HashesAgree hash := by
  intro memory pos key length hlength hcmp
  have hkey : forall first, myHashKey hash (memory pos.data) first =
      shortKey (memory pos.data) first := by
    intro first
    unfold myHashKey
    rw [hsame.getKey]
    rfl
  unfold hashcmp at hcmp
  unfold recHashnr hashCalc
  rw [hkey] at hcmp ⊢
  rw [hsame.hashFunction]
  rw [hsame.strnncoll] at hcmp
  simp only [shortKey, shortKeys, myHashInit] at hcmp ⊢
  by_cases hzero : memory pos.data 0 = 0
  · simp [hzero, hlength] at hcmp
  · simp [hzero, hlength] at hcmp ⊢
    rw [hcmp.right]

/-- Without one of the two conditions on updates, a search can miss a key. -/
theorem myHashSearch_misses :
    (exists t : Table Bytes, TableReachable UpdatesAnyRecord t ∧
      TableReachable HashesOldKey t ∧ HashesAgree t.hash ∧
      (exists i, i < t.hash.records ∧ t.hash.hasKey t.memory (fun _ => 1) 1 i = true) ∧
      myHashSearch t.hash t.memory (fun _ => 1) 1 = some NULL) ∧
    (exists t : Table Bytes, TableReachable UpdatesAnyRecord t ∧
      TableReachable HoldsOnce t ∧ HashesAgree t.hash ∧
      (exists i, i < t.hash.records ∧ t.hash.hasKey t.memory (fun _ => 1) 1 i = true) ∧
      myHashSearch t.hash t.memory (fun _ => 1) 1 = some NULL) := by
  constructor
  · refine ⟨deletedOnce, deletedOnce_reachable.mono fun _ _ _ _ _ => trivial,
      deletedOnce_reachable, shortKeys_hashesAgree ?_,
      ⟨0, by decide, by decide⟩, by decide⟩
    exact ((((after_sameKeys.trans after_sameKeys).trans after_sameKeys).trans
      after_sameKeys).trans after_sameKeys)
  · refine ⟨updatedEmptyKey, updatedEmptyKey_reachable.mono fun _ _ _ _ _ => trivial,
      updatedEmptyKey_reachable, shortKeys_hashesAgree ?_,
      ⟨0, by decide, by decide⟩, by decide⟩
    exact (after_sameKeys.trans after_sameKeys).trans after_sameKeys

theorem lookup_exact_withEmptyKey :
    exists found, myHashSearch withEmptyKey.hash withEmptyKey.memory (fun _ => 5) 1 =
        some found ∧
      exists i, (withEmptyKey.hash.links i).data = found := by
  have hagree : HashesAgree withEmptyKey.hash :=
    shortKeys_hashesAgree (after_sameKeys.trans after_sameKeys)
  rcases (lookup_exact withEmptyKey_reachable hagree (fun _ => 5)
    (by decide : 1 ≠ 0)).left with
    ⟨found, hsearch, _, ⟨i, _, _, hfound⟩ | ⟨hnone, _⟩⟩
  · exact ⟨found, hsearch, i, hfound⟩
  · have hmiss := hnone 1 (by decide)
    exact absurd hmiss (by decide)

end DynHash
end MyLibs
