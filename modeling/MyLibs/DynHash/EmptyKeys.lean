import MyLibs.DynHash.Uniqueness

/-!
# Empty keys

To `hashcmp` the length 0 means the length of the record it compares with, and to
`my_hash_first` it means `key_length`. The test for a duplicate in `my_hash_insert`
passes on the length of the new record's key, so that a record with an empty key is
looked for in another way than all others.
-/

namespace MyLibs
namespace DynHash

open Foundation

variable {content : Type _} [Readable content]
variable {hash : MyHash content} {memory : Ptr -> content} {record other : Ptr}

/-!
## Keys as byte strings
-/

def SameKey (key key' : Bytes × Nat) : Prop :=
  key.2 = key'.2 ∧ forall i, i < key.2 -> key.1 i = key'.1 i

/-- A table with `my_hash_UNIQUE` whose keys are byte strings: the collation compares
the bytes of the given lengths, hash values depend on the bytes of a key, and a
record has one key. -/
structure ByteKeys (hash : MyHash content) : Prop where
  unique : hash.unique = true
  compares : forall key length key' length',
    hash.strnncoll key length key' length' = 0 <-> SameKey (key, length) (key', length')
  hashes : forall key key' length, (forall i, i < length -> key i = key' i) ->
    hash.hashFunction key length = hash.hashFunction key' length
  oneKey : forall record, SameKey (myHashKey hash record false) (myHashKey hash record true)

namespace ByteKeys

theorem equalKeys_iff (h : ByteKeys hash) : EqualKeys hash memory other record <->
    SameKey (myHashKey hash (memory other) true) (myHashKey hash (memory record) true) := by
  unfold EqualKeys
  rw [h.compares]
  constructor
  · intro hequal
    exact hequal.right
  · intro hsame
    exact ⟨hsame.left, hsame⟩

theorem recHashnr_eq (h : ByteKeys hash) : recHashnr hash memory record =
    hashCalc hash (myHashKey hash (memory record) true).1
      (myHashKey hash (memory record) true).2 := by
  rcases h.oneKey (memory record) with ⟨hlength, hbytes⟩
  unfold recHashnr hashCalc
  rw [h.hashes _ _ _ hbytes, hlength]

end ByteKeys

/-!
## Where an empty key is looked for
-/

section Examples

end Examples

end DynHash
end MyLibs
