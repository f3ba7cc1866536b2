import MyLibs.DynHash.Buckets
import MyLibs.DynHash.Uniqueness

/-!
# Update against delete and insert

`my_hash_update` is there because it "is much more efficient than using a delete &
insert". It relinks one record and leaves all others where they are, so that the two
tables differ in their links, but not in what a caller gets to see.
-/

namespace MyLibs
namespace DynHash

open Foundation

section Links

variable {content : Type _} {hash hash' : MyHash content}

theorem OnlyLinks.trans {hash'' : MyHash content} (h : OnlyLinks hash hash')
    (h' : OnlyLinks hash' hash'') : OnlyLinks hash hash'' := by
  rcases h with ⟨array, records, blength, rfl⟩
  rcases h' with ⟨array', records', blength', rfl⟩
  exact ⟨_, _, _, rfl⟩

theorem OnlyLinks.symm (h : OnlyLinks hash hash') : OnlyLinks hash' hash := by
  rcases h with ⟨array, records, blength, rfl⟩
  exact ⟨_, _, _, rfl⟩

end Links

variable {content : Type _} [Readable content]
variable {hash hash' : MyHash content} {memory : Ptr -> content}

def Matches (hash : MyHash content) (memory : Ptr -> content) (key : Bytes) (length : Nat)
    (record : Ptr) : Bool :=
  !hashcmp hash memory { next := NO_RECORD, data := record } key length

/-!
## What a caller sees of a sound table
-/

theorem Sound.rehashed (h : Sound hash memory) {now : Ptr -> content}
    (hsame : forall record, record ∈ hash.contents ->
      recHashnr hash now record = recHashnr hash memory record) : Sound hash now := by
  refine ⟨h.bound, h.elements, h.size, Chained.congr h.linked ?_ (fun _ _ => rfl)⟩
  intro i hi
  unfold homeOf
  rw [hsame _ (mem_contents.mpr ⟨i, Finset.mem_range.mp hi, rfl⟩)]

theorem OnlyLinks.recHashnr_eq (h : OnlyLinks hash hash') (record : Ptr) :
    recHashnr hash' memory record = recHashnr hash memory record := by
  rcases h with ⟨array, records, blength, rfl⟩
  rfl

section Rekeyed

variable {record : Ptr} {newContent : content}

theorem Sound.deleted (h : Sound hash memory) (hrecord : record ∈ hash.contents)
    (honce : HoldsOnce hash memory record newContent) :
    exists deleted, myHashDelete hash memory record =
        some (0, deleted, if hash.free then [record] else []) ∧
      Sound deleted (Function.update memory record newContent) ∧
      OnlyLinks hash deleted ∧ hash.contents = record ::ₘ deleted.contents := by
  rcases myHashDelete_spec h record with ⟨_, habsent⟩ | ⟨deleted, hdelete, hsound, hcontents⟩
  · exact absurd hrecord habsent
  · have honly := myHashDelete_onlyLinks hdelete
    refine ⟨deleted, hdelete, hsound.rehashed ?_, honly, hcontents⟩
    intro other hother
    rw [honly.recHashnr_eq, honly.recHashnr_eq]
    by_cases hne : other = record
    · rcases honce with hcount | hvalue
      · rw [hcontents, Multiset.count_cons_self, Nat.add_eq_right, Multiset.count_eq_zero]
          at hcount
        exact absurd (hne ▸ hother) hcount
      · rw [hne]
        exact hvalue
    · exact recHashnr_update hne

end Rekeyed

/-!
## The two ways
-/

end DynHash
end MyLibs
