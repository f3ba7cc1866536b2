import MyLibs.DynHash.Properties

/-!
# The free function over the life of a table

A table with a free function owns the records it has accepted. They leave it by a
deletion, by `my_hash_reset`, by `my_hash_free`, or because `my_hash_replace` gives
them back to the caller.
-/

namespace MyLibs
namespace DynHash

open Foundation

variable {content : Type _} [Readable content]

/-- `my_hash_free`: the table, and the records that went to the free function. The array
gives up its buffer. -/
def myHashFree (hash : MyHash content) : MyHash content × List Ptr :=
  let freed := myHashFreeElements hash
  ({ freed.1 with
    free := false
    array := { freed.1.array with elements := 0 }
    blength := 0 }, freed.2)

def Op.accepted (ret : Nat) : Op content -> List Ptr
  | .insert record _ => if ret = 0 then [record] else []
  | .replace currentRecord newRow => if currentRecord != NO_RECORD then [newRow] else []
  | _ => []

def Op.withdrawn (t : Table content) : Op content -> List Ptr
  | .replace currentRecord _ =>
      if currentRecord != NO_RECORD then [(t.hash.links currentRecord).data] else []
  | _ => []

/-- A run, with the records handed over, taken back and given to the free function so
far. -/
inductive Life (start : Table content) :
    List Ptr -> List Ptr -> List Ptr -> Table content -> Prop where
  | start : Life start [] [] [] start
  | call {accepted withdrawn freed : List Ptr} {t t' : Table content} (op : Op content)
      {ret : Nat} {given : List Ptr} :
      Life start accepted withdrawn freed t -> Op.Allowed UpdatesOneRecord t op ->
      op.apply t = some (ret, t', given) -> t'.hash.records < 2 ^ 31 ->
      Life start (op.accepted ret ++ accepted) (op.withdrawn t ++ withdrawn)
        (given ++ freed) t'

theorem Life.after {start t : Table content} {accepted withdrawn freed : List Ptr}
    (h : Life start accepted withdrawn freed t) (op : Op content) {ret : Nat}
    {given : List Ptr} (hallowed : Op.Allowed UpdatesOneRecord t op)
    (hends : (op.apply t).map (fun result => (result.1, result.2.2)) = some (ret, given))
    (hbound : (t.after op).hash.records < 2 ^ 31) :
    Life start (op.accepted ret ++ accepted) (op.withdrawn t ++ withdrawn)
      (given ++ freed) (t.after op) := by
  rcases Option.map_eq_some_iff.mp hends with ⟨⟨ret', t', given'⟩, happly, hresult⟩
  cases hresult
  have hafter : t.after op = t' := by
    unfold Table.after
    rw [happly]
  rw [hafter] at hbound ⊢
  exact h.call op hallowed happly hbound

section Contents

variable {content : Type _} {hash : MyHash content}

theorem coe_elements : (((List.range hash.records).map fun i => (hash.links i).data :
    List Ptr) : Multiset Ptr) = hash.contents := by
  unfold MyHash.contents contentsOf
  rw [← Multiset.map_coe]
  rfl

theorem contents_empty (h : hash.records = 0) : hash.contents = 0 := by
  unfold MyHash.contents contentsOf
  rw [h]
  rfl

theorem contents_replace {currentRecord : Nat} (hvalid : currentRecord ≠ NO_RECORD)
    (hlt : currentRecord < hash.records) (newRow : Ptr) :
    (hash.links currentRecord).data ::ₘ (myHashReplace hash currentRecord newRow).contents =
      newRow ::ₘ hash.contents := by
  have hmem := Finset.mem_range.mpr hlt
  have hreplaced : (myHashReplace hash currentRecord newRow).contents =
      contentsOf (Finset.range hash.records) (Function.update hash.links currentRecord
        { hash.links currentRecord with data := newRow }) := by
    unfold myHashReplace
    rw [if_pos (by simpa using hvalid)]
    rfl
  have hothers : contentsOf ((Finset.range hash.records).erase currentRecord)
      (Function.update hash.links currentRecord
        { hash.links currentRecord with data := newRow }) =
      contentsOf ((Finset.range hash.records).erase currentRecord) hash.links := by
    apply contentsOf_congr
    intro i hi
    rw [Function.update_of_ne (Finset.ne_of_mem_erase hi)]
  rw [hreplaced, contentsOf_erase hmem, hothers, Function.update_self, Multiset.cons_swap]
  unfold MyHash.contents
  rw [contentsOf_erase hmem]

end Contents

/-- What every call keeps: all records the table has accepted are still in it, were taken
back, or went to the free function. -/
structure Settled (t : Table content) (accepted withdrawn freed : List Ptr) : Prop where
  sound : Sound t.hash t.memory
  free : t.hash.free = true
  balance : (accepted : Multiset Ptr) = t.hash.contents + withdrawn + freed

namespace Settled

variable {t t' : Table content} {accepted withdrawn freed given : List Ptr} {ret : Nat}

theorem insert (h : Settled t accepted withdrawn freed) {record : Ptr}
    {block : Option HashLink}
    (hstep : (Op.insert record block).apply t = some (ret, t', given))
    (hbound : t'.hash.records < 2 ^ 31) :
    ((Op.accepted ret (.insert record block : Op content) ++ accepted : List Ptr) :
      Multiset Ptr) = t'.hash.contents + withdrawn + (given ++ freed : List Ptr) := by
  rcases Option.map_eq_some_iff.mp hstep with ⟨⟨ret', hash'⟩, hinsert, hresult⟩
  cases hresult
  rcases myHashInsert_records hinsert with ⟨hone, hsame⟩ | hmore
  · rw [hone, hsame]
    exact h.balance
  · have hroom : t.hash.records + 1 < 2 ^ 31 := by
      rw [← hmore]
      exact hbound
    rcases myHashInsert_spec h.sound record block hroom with
      ⟨hrefused, _⟩ | ⟨hash'', haccepted, _, hcontents, _⟩
    · rw [hrefused] at hinsert
      cases hinsert
      exact h.balance
    · rw [haccepted] at hinsert
      cases hinsert
      show ((record :: accepted : List Ptr) : Multiset Ptr) =
        hash'.contents + withdrawn + ([] ++ freed : List Ptr)
      rw [hcontents, ← Multiset.cons_coe, h.balance, Multiset.cons_add, Multiset.cons_add]
      rfl

theorem delete (h : Settled t accepted withdrawn freed) {record : Ptr}
    (hstep : (Op.delete record).apply t = some (ret, t', given)) :
    (accepted : Multiset Ptr) = t'.hash.contents + withdrawn + (given ++ freed : List Ptr) := by
  rcases Option.map_eq_some_iff.mp hstep with ⟨⟨ret', hash', given'⟩, hdelete, hresult⟩
  cases hresult
  rcases myHashDelete_spec h.sound record with ⟨habsent, _⟩ | ⟨hash'', hremoved, _, hcontents⟩
  · rw [habsent] at hdelete
    cases hdelete
    exact h.balance
  · rw [hremoved] at hdelete
    cases hdelete
    rw [if_pos h.free, h.balance, hcontents]
    show record ::ₘ hash'.contents + withdrawn + freed =
      hash'.contents + withdrawn + ((record :: freed : List Ptr) : Multiset Ptr)
    rw [← Multiset.cons_coe, Multiset.add_cons, Multiset.cons_add, Multiset.cons_add]

theorem update (h : Settled t accepted withdrawn freed) {record : Ptr}
    {newContent : content}
    (hallowed : Op.Allowed UpdatesOneRecord t (.update record newContent))
    (hstep : (Op.update record newContent).apply t = some (ret, t', given)) :
    (accepted : Multiset Ptr) = t'.hash.contents + withdrawn + (given ++ freed : List Ptr) := by
  rcases Option.map_eq_some_iff.mp hstep with ⟨⟨ret', hash'⟩, hupdate, hresult⟩
  cases hresult
  rcases myHashUpdate_spec h.sound hallowed.left hallowed.right with
    ⟨_, hrefused⟩ | ⟨_, hash'', haccepted, _, hcontents, _⟩
  · rw [hrefused] at hupdate
    cases hupdate
    exact h.balance
  · rw [haccepted] at hupdate
    cases hupdate
    show (accepted : Multiset Ptr) = hash'.contents + withdrawn + freed
    rw [hcontents]
    exact h.balance

theorem replace (h : Settled t accepted withdrawn freed) {currentRecord : Nat} {newRow : Ptr}
    (hallowed : Op.Allowed UpdatesOneRecord t (.replace currentRecord newRow)) :
    ((Op.accepted 0 (.replace currentRecord newRow : Op content) ++ accepted : List Ptr) :
      Multiset Ptr) = (myHashReplace t.hash currentRecord newRow).contents +
        (Op.withdrawn t (.replace currentRecord newRow) ++ withdrawn : List Ptr) + freed := by
  by_cases hnone : currentRecord = NO_RECORD
  · unfold Op.accepted Op.withdrawn myHashReplace
    simpa [hnone] using h.balance
  · have hexchange := contents_replace hnone (hallowed hnone).left newRow
    have hsome : (currentRecord != NO_RECORD) = true := by
      simpa using hnone
    simp only [Op.accepted, Op.withdrawn, if_pos hsome]
    show ((newRow :: accepted : List Ptr) : Multiset Ptr) =
      (myHashReplace t.hash currentRecord newRow).contents +
        (((t.hash.links currentRecord).data :: withdrawn : List Ptr) : Multiset Ptr) + freed
    rw [← Multiset.cons_coe, ← Multiset.cons_coe, h.balance, ← Multiset.cons_add,
      ← Multiset.cons_add, ← hexchange, Multiset.add_cons, Multiset.cons_add,
      Multiset.cons_add]

theorem free_elements (h : Settled t accepted withdrawn freed) :
    (accepted : Multiset Ptr) =
      withdrawn + ((myHashFreeElements t.hash).2 ++ freed : List Ptr) := by
  have hall : ((myHashFreeElements t.hash).2 : Multiset Ptr) = t.hash.contents := by
    unfold myHashFreeElements
    rw [if_pos h.free]
    exact coe_elements
  rw [← Multiset.coe_add, hall, h.balance, ← Multiset.add_assoc, Multiset.add_comm
    (withdrawn : Multiset Ptr)]

theorem step {op : Op content} (h : Settled t accepted withdrawn freed)
    (hallowed : Op.Allowed UpdatesOneRecord t op)
    (hstep : op.apply t = some (ret, t', given)) (hbound : t'.hash.records < 2 ^ 31) :
    Settled t' (op.accepted ret ++ accepted) (op.withdrawn t ++ withdrawn)
      (given ++ freed) := by
  have hsound := sound_step h.sound ⟨op, ret, given, hallowed, hstep, hbound⟩
  have hfree : t'.hash.free = true := by
    rcases apply_onlyLinks hstep with ⟨array, records, blength, honly⟩
    rw [honly]
    exact h.free
  refine ⟨hsound, hfree, ?_⟩
  cases op with
  | insert record block => exact h.insert hstep hbound
  | delete record => exact h.delete hstep
  | update record newContent => exact h.update hallowed hstep
  | replace currentRecord newRow =>
      cases hstep
      exact h.replace hallowed
  | reset =>
      cases hstep
      have hempty : (myHashReset t.hash).1.contents = 0 := contents_empty rfl
      show (accepted : Multiset Ptr) = (myHashReset t.hash).1.contents + withdrawn +
        ((myHashReset t.hash).2 ++ freed : List Ptr)
      rw [hempty, Multiset.zero_add]
      exact h.free_elements
  | write memory =>
      cases hstep
      exact h.balance

end Settled

theorem Life.settled {start t : Table content} {accepted withdrawn freed : List Ptr}
    (hstart : start.Initial) (hfree : start.hash.free = true)
    (h : Life start accepted withdrawn freed t) : Settled t accepted withdrawn freed := by
  induction h with
  | start =>
      refine ⟨hstart.sound, hfree, ?_⟩
      rw [contents_empty hstart.left]
      rfl
  | call op _ hallowed hstep hbound ih => exact ih.step hallowed hstep hbound

/-- Whatever calls a table has seen, the records it has accepted are those it still has,
those that were taken back and those that went to the free function, each as often as it
was accepted. After `my_hash_free` there are only the last two, and the freed table
answers searches with the null pointer. -/
theorem dynHash_frees_once {start t : Table content} {accepted withdrawn freed : List Ptr}
    (hstart : start.Initial) (hfree : start.hash.free = true)
    (h : Life start accepted withdrawn freed t) :
    (accepted : Multiset Ptr) = t.hash.contents + withdrawn + freed ∧
      (accepted : Multiset Ptr) = withdrawn + ((myHashFree t.hash).2 ++ freed : List Ptr) ∧
      forall memory key length,
        myHashSearch (myHashFree t.hash).1 memory key length = some NULL := by
  have hsettled := h.settled hstart hfree
  refine ⟨hsettled.balance, hsettled.free_elements, ?_⟩
  intro memory key length
  rfl

def ownedKeys : Table Bytes :=
  { shortKeys with hash := { shortKeys.hash with free := true } }

def ownedSixteen : Table Bytes :=
  ((ownedKeys.after (.insert 8 freshSlot)).after (.insert 16 freshSlot)).after (.delete 8)

theorem ownedSixteen_life : Life ownedKeys [16, 8] [] [8] ownedSixteen := by
  have hnone : Life ownedKeys [] [] [] ownedKeys := Life.start
  have hone := hnone.after (.insert 8 freshSlot) trivial
    (show _ = some (0, []) by decide) (by decide)
  have htwo := hone.after (.insert 16 freshSlot) trivial
    (show _ = some (0, []) by decide) (by decide)
  exact htwo.after (.delete 8) trivial (show _ = some (0, [8]) by decide)
    (by decide)

theorem dynHash_frees_once_ownedSixteen :
    ([16, 8] : Multiset Ptr) = ownedSixteen.hash.contents + ([] : List Ptr) +
      ([8] : List Ptr) ∧
      ([16, 8] : Multiset Ptr) =
        ([] : List Ptr) + ((myHashFree ownedSixteen.hash).2 ++ [8] : List Ptr) :=
  have h := dynHash_frees_once ⟨rfl, rfl, rfl⟩ rfl ownedSixteen_life
  ⟨h.left, h.right.left⟩

end DynHash
end MyLibs
