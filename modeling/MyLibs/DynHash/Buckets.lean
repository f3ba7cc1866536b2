import MyLibs.DynHash.Growth

/-!
# The bucket of a hash value

Lookup computes it with `size_t` arguments, deletion and update with copies of
them in an `unsigned int`.
-/

namespace MyLibs
namespace DynHash

def blengthFor : Nat -> Nat
  | 0 => 1
  | records + 1 =>
      if records + 1 = blengthFor records then
        blengthFor records + blengthFor records
      else blengthFor records

theorem tableSize_blengthFor (records : Nat) : TableSize (blengthFor records) records := by
  induction records with
  | zero => exact ⟨⟨0, rfl⟩, Nat.zero_le 0, Nat.zero_lt_one⟩
  | succ records ih => exact ih.grow

theorem TableSize.unique {blength blength' records : Nat} (h : TableSize blength records)
    (h' : TableSize blength' records) (hpos : 0 < records) : blength = blength' := by
  have htwo := h.eq_two_mul_half hpos
  have htwo' := h'.eq_two_mul_half hpos
  have hhalf := h.half_le
  have hhalf' := h'.half_le
  have hlt := h.lt
  have hlt' := h'.lt
  rcases h.pow with ⟨k, hk⟩
  rcases h'.pow with ⟨l, hl⟩
  have hkl : k = l := by
    apply Nat.le_antisymm
    · have hpow : 2 ^ k < 2 ^ (l + 1) := by
        rw [Nat.pow_succ]
        omega
      exact Nat.le_of_lt_succ ((Nat.pow_lt_pow_iff_right (by decide)).mp hpow)
    · have hpow : 2 ^ l < 2 ^ (k + 1) := by
        rw [Nat.pow_succ]
        omega
      exact Nat.le_of_lt_succ ((Nat.pow_lt_pow_iff_right (by decide)).mp hpow)
  rw [hk, hl, hkl]

section Tables

variable {content : Type _} [Readable content]

variable {hash : MyHash content} {memory : Ptr -> content}

theorem myHashFirstFromHashValue_start (hpos : hash.records ≠ 0) (hashValue : UInt32)
    (key : Bytes) (length : Nat) :
    myHashFirstFromHashValue hash memory hashValue key length =
      firstLoop hash memory key length (hash.records + 1) true
        (firstBucket hash hashValue) := by
  rw [myHashFirstFromHashValue, if_pos (by simpa using hpos)]

/-- A deletion that finds nothing from its bucket on has not found the key. -/
theorem myHashDelete_missed (hpos : hash.records ≠ 0) {record : Ptr}
    (hfind : findRecord hash.links record (hash.records + 1) none
      (deleteBucket hash (recHashnr hash memory record)) = some none) :
    myHashDelete hash memory record = some (1, hash, []) := by
  rw [myHashDelete, if_neg hpos]
  simp only [hfind, Option.bind_some]

/-- An update that stays in its bucket changes nothing. -/
theorem myHashUpdate_stays {record : Ptr} {oldKey : Bytes} {oldKeyLength : Nat}
    (hduplicate : duplicateUpdate hash memory record = some false)
    (hbucket : updateBucket hash (myHashCalc hash oldKey oldKeyLength) =
      updateBucket hash (recHashnr hash memory record)) :
    myHashUpdate hash memory record oldKey oldKeyLength = some (0, hash) := by
  unfold myHashCalc at hbucket
  rw [myHashUpdate, hduplicate]
  simp only [Option.bind_some, Bool.false_eq_true, if_false, hbucket, if_true]

theorem myHashInsert_blength {record : Ptr} {block : Option HashLink} {ret : Nat}
    {hash' : MyHash content} (h : hash.blength = blengthFor hash.records)
    (hcall : myHashInsert hash memory record block = some (ret, hash')) :
    hash'.blength = blengthFor hash'.records := by
  rw [myHashInsert, Option.bind_eq_some_iff] at hcall
  rcases hcall with ⟨duplicate, _, hcall⟩
  split at hcall
  · cases hcall
    exact h
  · split at hcall
    · cases hcall
      exact h
    · rw [Option.bind_eq_some_iff] at hcall
      rcases hcall with ⟨split, _, hcall⟩
      rcases Option.map_eq_some_iff.mp hcall with ⟨data, _, hpair⟩
      cases hpair
      show _ = blengthFor (hash.records + 1)
      rw [blengthFor, ← h]

end Tables

/-!
## Agreement
-/

section Agreement

variable {blength records : Nat}

/-- From 2^31 records on `blength` is 2^32, until there are 2^32 records. -/
theorem TableSize.blength_eq (h : TableSize blength records) (hle : 2 ^ 31 <= records)
    (hlt : records < 2 ^ 32) : blength = 2 ^ 32 := by
  have hlarge : TableSize (2 ^ 32) records :=
    ⟨⟨32, rfl⟩, by omega, hlt⟩
  exact h.unique hlarge (by omega)

theorem TableSize.blength_lt_sizet (h : TableSize blength records)
    (hrecords : records < 2 ^ 32) : blength < 2 ^ 64 := by
  rcases Nat.lt_or_ge records (2 ^ 31) with hsmall | hlarge
  · have hblength := h.blength_lt hsmall
    omega
  · rw [h.blength_eq hlarge hrecords]
    decide

/-- With the `blength` 2^32 copied to an `unsigned int` no bit is masked out. -/
theorem myHashMask_wrapped (hashnr : UInt32) (maxlength : Nat) :
    myHashMask hashnr (uint (2 ^ 32)) maxlength = hashnr.toNat := by
  have hzero : uint (2 ^ 32) = 0 := by decide
  have hones : sizetSub 0 1 = 2 ^ 64 - 1 := by decide
  have hhash := hashnr.toNat_lt
  have hall : hashnr.toNat &&& (2 ^ 64 - 1) = hashnr.toNat := by
    rw [Nat.and_two_pow_sub_one_eq_mod]
    exact Nat.mod_eq_of_lt (by omega)
  rw [myHashMask, hzero, Nat.zero_shiftRight, hones, hall, ite_self]

variable {content : Type _} {hash : MyHash content}

theorem firstBucket_lt (h : TableSize hash.blength hash.records) (hpos : 0 < hash.records)
    (hlt : hash.records < 2 ^ 32) (hashValue : UInt32) :
    firstBucket hash hashValue < hash.records :=
  myHashMask_lt_of_lt h hpos (h.blength_lt_sizet hlt)

theorem updateBucket_eq (hlt : hash.records < 2 ^ 32) (hashValue : UInt32) :
    updateBucket hash hashValue = deleteBucket hash hashValue := by
  rw [updateBucket, uint_of_lt hlt]
  rfl

theorem deleteBucket_small (h : TableSize hash.blength hash.records)
    (hsmall : hash.records < 2 ^ 31) (hashValue : UInt32) :
    deleteBucket hash hashValue = firstBucket hash hashValue := by
  rw [deleteBucket, uint_of_lt (h.blength_lt hsmall)]
  rfl

theorem deleteBucket_large (h : TableSize hash.blength hash.records)
    (hle : 2 ^ 31 <= hash.records) (hlt : hash.records < 2 ^ 32) (hashValue : UInt32) :
    deleteBucket hash hashValue = hashValue.toNat := by
  rw [deleteBucket, h.blength_eq hle hlt]
  exact myHashMask_wrapped hashValue hash.records

theorem firstBucket_large (h : TableSize hash.blength hash.records)
    (hle : 2 ^ 31 <= hash.records) (hlt : hash.records < 2 ^ 32) {hashValue : UInt32}
    (hhash : hashValue.toNat < hash.records) :
    firstBucket hash hashValue = hashValue.toNat := by
  have hlow : hashValue.toNat % 2 ^ 32 = hashValue.toNat :=
    Nat.mod_eq_of_lt hashValue.toNat_lt
  rw [firstBucket, myHashMask_eq_of_lt h (by omega) (h.blength_lt_sizet hlt),
    h.blength_eq hle hlt, hlow, if_pos hhash]

/-- Lookup, deletion and update compute one bucket, below the number of records,
exactly for tables of fewer than 2^31 records and for hash values below the
number of records. -/
theorem buckets_agree_iff (hblength : hash.blength = blengthFor hash.records)
    (hpos : 1 <= hash.records) (hlt : hash.records < 2 ^ 32 - 1) (hashValue : UInt32) :
    (firstBucket hash hashValue = deleteBucket hash hashValue ∧
        deleteBucket hash hashValue = updateBucket hash hashValue ∧
        firstBucket hash hashValue < hash.records) <->
      (hash.records < 2 ^ 31 ∨ hashValue.toNat < hash.records) := by
  have h : TableSize hash.blength hash.records := by
    rw [hblength]
    exact tableSize_blengthFor hash.records
  have hlt' : hash.records < 2 ^ 32 := by omega
  have hfirst := firstBucket_lt h hpos hlt' hashValue
  have hupdate := updateBucket_eq hlt' hashValue
  constructor
  · intro hagree
    rcases Nat.lt_or_ge hash.records (2 ^ 31) with hsmall | hlarge
    · exact Or.inl hsmall
    · right
      rw [← deleteBucket_large h hlarge hlt' hashValue, ← hagree.left]
      exact hfirst
  · intro hcases
    have hdelete : deleteBucket hash hashValue = firstBucket hash hashValue := by
      rcases Nat.lt_or_ge hash.records (2 ^ 31) with hsmall | hlarge
      · exact deleteBucket_small h hsmall hashValue
      · have hhash := hcases.resolve_left (Nat.not_lt_of_le hlarge)
        rw [deleteBucket_large h hlarge hlt', firstBucket_large h hlarge hlt' hhash]
    exact ⟨hdelete.symm, hupdate.symm, hfirst⟩

end Agreement

def tableOfSize (records : Nat) : MyHash Bytes :=
  { myHashInit (fun _ _ => 0) (fun _ _ _ _ => 0) 0 1 none false 0
      (fun _ => { next := 0, data := NULL }) with
    records := records
    blength := blengthFor records }

theorem tableOfSize_blength (records : Nat) :
    (tableOfSize records).blength = blengthFor (tableOfSize records).records :=
  rfl

theorem tableSize_tableOfSize (records : Nat) :
    TableSize (tableOfSize records).blength (tableOfSize records).records :=
  tableSize_blengthFor records

theorem buckets_agree_iff_halfFull :
    firstBucket (tableOfSize (2 ^ 31)) 5 = deleteBucket (tableOfSize (2 ^ 31)) 5 ∧
      deleteBucket (tableOfSize (2 ^ 31)) 5 = updateBucket (tableOfSize (2 ^ 31)) 5 ∧
      firstBucket (tableOfSize (2 ^ 31)) 5 < 2 ^ 31 :=
  (buckets_agree_iff (tableOfSize_blength (2 ^ 31)) (by decide) (by decide) 5).mpr
    (Or.inr (by decide))

/-- The hash value 2^31 belongs to bucket 0, and deletion starts behind the last
slot. -/
theorem deleteBucket_misses : firstBucket (tableOfSize (2 ^ 31)) 0x80000000 = 0 ∧
    deleteBucket (tableOfSize (2 ^ 31)) 0x80000000 = 2 ^ 31 ∧
    updateBucket (tableOfSize (2 ^ 31)) 0x80000000 = 2 ^ 31 := by
  have h := tableSize_tableOfSize (2 ^ 31)
  have hblength := h.blength_eq (by decide) (by decide)
  have hdelete := deleteBucket_large h (by decide) (by decide) 0x80000000
  refine ⟨?_, hdelete, ?_⟩
  · rw [firstBucket, hblength]
    decide
  · rw [updateBucket_eq (by decide), hdelete]
    rfl

end DynHash
end MyLibs
