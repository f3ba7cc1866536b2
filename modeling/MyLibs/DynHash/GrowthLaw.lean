import Mathlib.Logic.Relation
import MyLibs.DynHash.Buckets

/-!
# One more record splits one bucket

The buckets of `n` records are those of `blengthFor n`, the `blength` that
insertions leave behind. From `n` to `n + 1` records they differ in the bucket
`n - blength / 2` alone, also where `blength` doubles on the way.
-/

namespace MyLibs
namespace DynHash

/-!
## Tables built by insertion
-/

section Tables

variable {content : Type _} [Readable content]

def InsertStep (hash hash' : MyHash content) : Prop :=
  exists memory record block ret,
    myHashInsert hash memory record block = some (ret, hash')

theorem insertSteps_blength {start hash : MyHash content} (hrecords : start.records = 0)
    (hblength : start.blength = 1) (hrun : Relation.ReflTransGen InsertStep start hash) :
    hash.blength = blengthFor hash.records := by
  induction hrun with
  | refl =>
      rw [hblength, hrecords]
      rfl
  | tail _ hstep ih =>
      rcases hstep with ⟨memory, record, block, ret, hcall⟩
      exact myHashInsert_blength ih hcall

end Tables

/-!
## From one number of records to the next
-/

variable {n : Nat}

theorem blengthFor_succ_of_full (hfull : n + 1 = blengthFor n) :
    blengthFor (n + 1) = 2 * blengthFor n := by
  rw [blengthFor, if_pos hfull, Nat.two_mul]

theorem blengthFor_succ_of_room (hroom : n + 1 ≠ blengthFor n) :
    blengthFor (n + 1) = blengthFor n := by
  rw [blengthFor, if_neg hroom]

/-- The bucket `my_hash_insert` computes before it updates `blength` is the one
computed with the new `blength`. -/
theorem myHashMask_blengthFor_succ (hsmall : n < 2 ^ 31) (hashnr : UInt32) :
    myHashMask hashnr (blengthFor n) (n + 1) =
      myHashMask hashnr (blengthFor (n + 1)) (n + 1) :=
  (myHashMask_grow (tableSize_blengthFor n) hsmall).symm

theorem bucket_moves (hpos : 1 <= n) (hsmall : n < 2 ^ 31) {hashnr : UInt32}
    (hmoves : myHashMask hashnr (blengthFor (n + 1)) (n + 1) ≠
      myHashMask hashnr (blengthFor n) n) :
    myHashMask hashnr (blengthFor n) n = n - blengthFor n / 2 := by
  rw [← myHashMask_blengthFor_succ hsmall] at hmoves
  rcases myHashMask_succ hashnr (tableSize_blengthFor n) hpos hsmall with
    hsame | ⟨_, hsplit⟩
  · exact absurd hsame hmoves
  · exact hsplit

theorem bucket_splits (hpos : 1 <= n) (hsmall : n < 2 ^ 31) {hashnr : UInt32}
    (hsplit : myHashMask hashnr (blengthFor n) n = n - blengthFor n / 2) :
    (myHashMask hashnr (blengthFor (n + 1)) (n + 1) = n <->
        hashnr.toNat &&& (blengthFor n >>> 1) ≠ 0) ∧
      (hashnr.toNat &&& (blengthFor n >>> 1) = 0 ->
        myHashMask hashnr (blengthFor (n + 1)) (n + 1) =
          myHashMask hashnr (blengthFor n) n) := by
  have hsize := tableSize_blengthFor n
  have hhalf := hsize.half_pos hpos
  rw [← myHashMask_blengthFor_succ hsmall, myHashMask_succ_of_bit hsize hpos hsmall hsplit]
  constructor
  · split
    · rename_i hclear
      constructor
      · intro hn
        omega
      · intro hset
        exact absurd hclear hset
    · rename_i hset
      exact iff_of_true rfl hset
  · intro hclear
    rw [if_pos hclear, hsplit]

/-- The growth law. -/
theorem growth_law (hpos : 1 <= n) (hsmall : n < 2 ^ 31) (hashnr : UInt32) :
    TableSize (blengthFor n) n ∧
      myHashMask hashnr (blengthFor n) n < n ∧
      (myHashMask hashnr (blengthFor (n + 1)) (n + 1) ≠
          myHashMask hashnr (blengthFor n) n ->
        myHashMask hashnr (blengthFor n) n = n - blengthFor n / 2) ∧
      (myHashMask hashnr (blengthFor n) n = n - blengthFor n / 2 ->
        (myHashMask hashnr (blengthFor (n + 1)) (n + 1) = n <->
            hashnr.toNat &&& (blengthFor n >>> 1) ≠ 0) ∧
          (hashnr.toNat &&& (blengthFor n >>> 1) = 0 ->
            myHashMask hashnr (blengthFor (n + 1)) (n + 1) =
              myHashMask hashnr (blengthFor n) n)) ∧
      (n + 1 ≠ blengthFor n -> blengthFor (n + 1) = blengthFor n) ∧
      (n + 1 = blengthFor n ->
        blengthFor (n + 1) = 2 * blengthFor n ∧
          myHashMask hashnr (blengthFor n) (n + 1) =
            myHashMask hashnr (2 * blengthFor n) (n + 1)) := by
  have hsize := tableSize_blengthFor n
  constructor
  · exact hsize
  constructor
  · exact myHashMask_lt hsize hpos hsmall
  constructor
  · exact bucket_moves hpos hsmall
  constructor
  · exact bucket_splits hpos hsmall
  constructor
  · exact blengthFor_succ_of_room
  · intro hfull
    have hdouble := blengthFor_succ_of_full hfull
    constructor
    · exact hdouble
    · rw [← hdouble]
      exact myHashMask_blengthFor_succ hsmall hashnr

theorem growth_law_two :
    myHashMask 6 (blengthFor 2) 2 = 2 - blengthFor 2 / 2 ∧
      myHashMask 6 (blengthFor 3) 3 = 2 ∧
      myHashMask 6 (blengthFor 3) 4 = myHashMask 6 (2 * blengthFor 3) 4 := by
  rcases growth_law (n := 2) (by decide) (by decide) 6 with ⟨_, _, _, hsplits, _⟩
  rcases growth_law (n := 3) (by decide) (by decide) 6 with ⟨_, _, _, _, _, hdoubles⟩
  have hsplit : myHashMask 6 (blengthFor 2) 2 = 2 - blengthFor 2 / 2 := by
    decide
  constructor
  · exact hsplit
  · constructor
    · exact (hsplits hsplit).left.mpr (by decide)
    · exact (hdoubles (by decide)).right

end DynHash
end MyLibs
