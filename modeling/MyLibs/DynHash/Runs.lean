import Mathlib.Logic.Relation
import MyLibs.DynHash.Operations

/-!
# Runs of the table

The table together with the memory its records live in, under any sequence of
calls. A free function is taken to leave the keys of the records that stay in
the table alone.
-/

namespace MyLibs
namespace DynHash

open Foundation

section Keys

variable {content : Type _}

structure SameKeys (hash hash' : MyHash content) : Prop where
  keyOffset : hash'.keyOffset = hash.keyOffset
  keyLength : hash'.keyLength = hash.keyLength
  getKey : hash'.getKey = hash.getKey
  hashFunction : hash'.hashFunction = hash.hashFunction
  strnncoll : hash'.strnncoll = hash.strnncoll

theorem SameKeys.refl (hash : MyHash content) : SameKeys hash hash :=
  ⟨rfl, rfl, rfl, rfl, rfl⟩

theorem SameKeys.trans {hash hash' hash'' : MyHash content}
    (hfirst : SameKeys hash hash') (hsecond : SameKeys hash' hash'') :
    SameKeys hash hash'' where
  keyOffset := hsecond.keyOffset.trans hfirst.keyOffset
  keyLength := hsecond.keyLength.trans hfirst.keyLength
  getKey := hsecond.getKey.trans hfirst.getKey
  hashFunction := hsecond.hashFunction.trans hfirst.hashFunction
  strnncoll := hsecond.strnncoll.trans hfirst.strnncoll

end Keys

variable {content : Type _} [Readable content]

structure Table (content : Type _) where
  hash : MyHash content
  memory : Ptr -> content

inductive Op (content : Type _) where
  | insert (record : Ptr) (block : Option HashLink)
  | delete (record : Ptr)
  /-- The key of a record changes in place, then `my_hash_update` is called with
  the old key; if it refuses, the old key comes back. -/
  | update (record : Ptr) (newContent : content)
  | replace (currentRecord : Nat) (newRow : Ptr)
  | reset
  /-- Writes to memory that change no key of the table. -/
  | write (memory : Ptr -> content)

/-- What callers keep to. `mayUpdate` is what they promise about updates, besides
that the record is in the table. -/
def Op.Allowed (mayUpdate : MyHash content -> (Ptr -> content) -> Ptr -> content -> Prop)
    (t : Table content) : Op content -> Prop
  | .insert _ _ => True
  | .delete _ => True
  | .update record newContent =>
      record ∈ t.hash.contents ∧ mayUpdate t.hash t.memory record newContent
  | .replace currentRecord newRow =>
      currentRecord ≠ NO_RECORD -> currentRecord < t.hash.records ∧
        recHashnr t.hash t.memory newRow =
          recHashnr t.hash t.memory (t.hash.links currentRecord).data
  | .reset => True
  | .write memory => forall record, record ∈ t.hash.contents -> forall first,
      myHashKey t.hash (memory record) first =
        myHashKey t.hash (t.memory record) first

def Op.apply (t : Table content) : Op content -> Option (Nat × Table content × List Ptr)
  | .insert record block =>
      (myHashInsert t.hash t.memory record block).map fun (ret, hash) =>
        (ret, { t with hash := hash }, [])
  | .delete record =>
      (myHashDelete t.hash t.memory record).map fun (ret, hash, freed) =>
        (ret, { t with hash := hash }, freed)
  | .update record newContent =>
      let oldKey := myHashKey t.hash (t.memory record) false
      let memory := Function.update t.memory record newContent
      (myHashUpdate t.hash memory record oldKey.1 oldKey.2).map fun (ret, hash) =>
        (ret, { hash := hash, memory := if ret = 0 then memory else t.memory }, [])
  | .replace currentRecord newRow =>
      some (0, { t with hash := myHashReplace t.hash currentRecord newRow }, [])
  | .reset =>
      some (0, { t with hash := (myHashReset t.hash).1 }, (myHashReset t.hash).2)
  | .write memory => some (0, { t with memory := memory }, [])

def TableStep
    (mayUpdate : MyHash content -> (Ptr -> content) -> Ptr -> content -> Prop)
    (t t' : Table content) : Prop :=
  exists op ret freed, Op.Allowed mayUpdate t op ∧
    op.apply t = some (ret, t', freed) ∧ t'.hash.records < 2 ^ 31

def Table.Initial (t : Table content) : Prop :=
  t.hash.records = 0 ∧ t.hash.blength = 1 ∧ t.hash.array.elements = 0

def TableReachable
    (mayUpdate : MyHash content -> (Ptr -> content) -> Ptr -> content -> Prop)
    (t : Table content) : Prop :=
  exists start : Table content, start.Initial ∧
    Relation.ReflTransGen (TableStep mayUpdate) start t

def UpdatesAnyRecord (_hash : MyHash content) (_memory : Ptr -> content)
    (_record : Ptr) (_newContent : content) : Prop :=
  True

theorem TableReachable.mono
    {mayUpdate promised : MyHash content -> (Ptr -> content) -> Ptr -> content -> Prop}
    (hweaker : forall hash memory record newContent,
      promised hash memory record newContent -> mayUpdate hash memory record newContent)
    {t : Table content} (h : TableReachable promised t) :
    TableReachable mayUpdate t := by
  rcases h with ⟨start, hstart, hrun⟩
  refine ⟨start, hstart, ?_⟩
  induction hrun with
  | refl => exact Relation.ReflTransGen.refl
  | tail _ hstep ih =>
      rcases hstep with ⟨op, ret, freed, hallowed, happly, hbound⟩
      refine Relation.ReflTransGen.tail ih ⟨op, ret, freed, ?_, happly, hbound⟩
      cases op with
      | update record newContent =>
          exact ⟨hallowed.left, hweaker _ _ _ _ hallowed.right⟩
      | insert record block => exact hallowed
      | delete record => exact hallowed
      | replace currentRecord newRow => exact hallowed
      | reset => exact hallowed
      | write memory => exact hallowed

def Table.after (t : Table content) (op : Op content) : Table content :=
  match op.apply t with
  | some (_, t', _) => t'
  | none => t

theorem TableReachable.after
    {mayUpdate : MyHash content -> (Ptr -> content) -> Ptr -> content -> Prop}
    {t : Table content} (h : TableReachable mayUpdate t) (op : Op content)
    (hallowed : Op.Allowed mayUpdate t op) (hends : (op.apply t).isSome = true)
    (hbound : (t.after op).hash.records < 2 ^ 31) :
    TableReachable mayUpdate (t.after op) := by
  rcases h with ⟨start, hstart, hrun⟩
  rcases Option.isSome_iff_exists.mp hends with ⟨⟨ret, t', freed⟩, happly⟩
  have hafter : t.after op = t' := by
    unfold Table.after
    rw [happly]
  rw [hafter] at hbound ⊢
  exact ⟨start, hstart, hrun.tail ⟨op, ret, freed, hallowed, happly, hbound⟩⟩

/-!
## What no call changes

The functions, the lengths and the flags the table was initialised with stay.
-/

/-- The second table differs in its links and their number at most. -/
def OnlyLinks (hash hash' : MyHash content) : Prop :=
  exists array records blength,
    hash' = { hash with array := array, records := records, blength := blength }

namespace OnlyLinks

variable {hash hash' : MyHash content}

omit [Readable content] in
theorem refl (hash : MyHash content) : OnlyLinks hash hash :=
  ⟨hash.array, hash.records, hash.blength, rfl⟩

omit [Readable content] in
theorem sameKeys (h : OnlyLinks hash hash') : SameKeys hash hash' := by
  rcases h with ⟨array, records, blength, rfl⟩
  exact ⟨rfl, rfl, rfl, rfl, rfl⟩

omit [Readable content] in
theorem unique_eq (h : OnlyLinks hash hash') : hash'.unique = hash.unique := by
  rcases h with ⟨array, records, blength, rfl⟩
  rfl

end OnlyLinks

theorem myHashInsert_onlyLinks {hash hash' : MyHash content} {memory : Ptr -> content}
    {record : Ptr} {block : Option HashLink} {ret : Nat}
    (h : myHashInsert hash memory record block = some (ret, hash')) :
    OnlyLinks hash hash' := by
  unfold myHashInsert at h
  rcases Option.bind_eq_some_iff.mp h with ⟨duplicate, _, h⟩
  cases duplicate with
  | true =>
      cases h
      exact OnlyLinks.refl _
  | false =>
      simp only [Bool.false_eq_true, if_false] at h
      split at h
      · cases h
        exact OnlyLinks.refl _
      · rcases Option.bind_eq_some_iff.mp h with ⟨split, _, h⟩
        rcases Option.map_eq_some_iff.mp h with ⟨data, _, h⟩
        cases h
        exact ⟨_, _, _, rfl⟩

theorem myHashDelete_onlyLinks {hash hash' : MyHash content} {memory : Ptr -> content}
    {record : Ptr} {ret : Nat} {freed : List Ptr}
    (h : myHashDelete hash memory record = some (ret, hash', freed)) :
    OnlyLinks hash hash' := by
  unfold myHashDelete deleteBucket at h
  split at h
  · cases h
    exact OnlyLinks.refl _
  · rcases Option.bind_eq_some_iff.mp h with ⟨found, _, h⟩
    cases found with
    | none =>
        cases h
        exact OnlyLinks.refl _
    | some found =>
        rcases Option.map_eq_some_iff.mp h with ⟨data, _, h⟩
        cases h
        exact ⟨_, _, _, rfl⟩

theorem myHashUpdate_onlyLinks {hash hash' : MyHash content} {memory : Ptr -> content}
    {record : Ptr} {oldKey : Bytes} {oldKeyLength ret : Nat}
    (h : myHashUpdate hash memory record oldKey oldKeyLength = some (ret, hash')) :
    OnlyLinks hash hash' := by
  unfold myHashUpdate updateBucket at h
  rcases Option.bind_eq_some_iff.mp h with ⟨duplicate, _, h⟩
  cases duplicate with
  | true =>
      cases h
      exact OnlyLinks.refl _
  | false =>
      simp only [Bool.false_eq_true, if_false] at h
      generalize (if (oldKeyLength != 0) = true then oldKeyLength
        else hash.keyLength) = length at h
      split at h
      · cases h
        exact OnlyLinks.refl _
      · rcases Option.bind_eq_some_iff.mp h with ⟨found, _, h⟩
        cases found with
        | none =>
            cases h
            exact OnlyLinks.refl _
        | some found =>
            rcases Option.map_eq_some_iff.mp h with ⟨data, _, h⟩
            cases h
            exact ⟨_, _, _, rfl⟩

theorem apply_onlyLinks {t t' : Table content} {op : Op content} {ret : Nat}
    {freed : List Ptr} (h : op.apply t = some (ret, t', freed)) :
    OnlyLinks t.hash t'.hash := by
  cases op with
  | insert record block =>
      rcases Option.map_eq_some_iff.mp h with ⟨⟨ret', hash'⟩, hinsert, hresult⟩
      cases hresult
      exact myHashInsert_onlyLinks hinsert
  | delete record =>
      rcases Option.map_eq_some_iff.mp h with ⟨⟨ret', hash', freed'⟩, hdelete, hresult⟩
      cases hresult
      exact myHashDelete_onlyLinks hdelete
  | update record newContent =>
      rcases Option.map_eq_some_iff.mp h with ⟨⟨ret', hash'⟩, hupdate, hresult⟩
      cases hresult
      exact myHashUpdate_onlyLinks hupdate
  | replace currentRecord newRow =>
      cases h
      unfold myHashReplace
      split
      · exact ⟨_, _, _, rfl⟩
      · exact OnlyLinks.refl _
  | reset =>
      cases h
      exact ⟨_, _, _, rfl⟩
  | write memory =>
      cases h
      exact OnlyLinks.refl _

theorem apply_sameKeys {t t' : Table content} {op : Op content} {ret : Nat}
    {freed : List Ptr} (h : op.apply t = some (ret, t', freed)) :
    SameKeys t.hash t'.hash :=
  (apply_onlyLinks h).sameKeys

theorem after_sameKeys {t : Table content} {op : Op content} :
    SameKeys t.hash (t.after op).hash := by
  unfold Table.after
  cases happly : op.apply t with
  | none => exact SameKeys.refl _
  | some result => exact apply_sameKeys happly

/-!
## Soundness along a run
-/

theorem Table.Initial.sound {t : Table content} (h : t.Initial) :
    Sound t.hash t.memory := by
  rcases h with ⟨hrecords, hblength, helements⟩
  refine ⟨by omega, by omega, ⟨⟨0, hblength⟩, by omega, by omega⟩, ?_⟩
  rw [hrecords]
  exact Chained.empty

theorem sound_insert {t t' : Table content} {record : Ptr} {block : Option HashLink}
    {ret : Nat} {freed : List Ptr} (h : Sound t.hash t.memory)
    (hstep : (Op.insert record block).apply t = some (ret, t', freed))
    (hbound : t'.hash.records < 2 ^ 31) : Sound t'.hash t'.memory := by
  rcases Option.map_eq_some_iff.mp hstep with ⟨⟨ret', hash'⟩, hinsert, hresult⟩
  cases hresult
  rcases myHashInsert_records hinsert with ⟨_, hsame⟩ | hmore
  · rw [hsame]
    exact h
  · have hroom : t.hash.records + 1 < 2 ^ 31 := by
      rw [← hmore]
      exact hbound
    rcases myHashInsert_spec h record block hroom with
      ⟨hrefused, _⟩ | ⟨hash'', haccepted, hsound, _, _⟩
    · rw [hrefused] at hinsert
      cases hinsert
      exact h
    · rw [haccepted] at hinsert
      cases hinsert
      exact hsound

theorem sound_delete {t t' : Table content} {record : Ptr} {ret : Nat}
    {freed : List Ptr} (h : Sound t.hash t.memory)
    (hstep : (Op.delete record).apply t = some (ret, t', freed)) :
    Sound t'.hash t'.memory := by
  rcases Option.map_eq_some_iff.mp hstep with ⟨⟨ret', hash', freed'⟩, hdelete, hresult⟩
  cases hresult
  rcases myHashDelete_spec h record with ⟨habsent, _⟩ | ⟨hash'', hremoved, hsound, _⟩
  · rw [habsent] at hdelete
    cases hdelete
    exact h
  · rw [hremoved] at hdelete
    cases hdelete
    exact hsound

theorem sound_update {t t' : Table content} {record : Ptr} {newContent : content}
    {ret : Nat} {freed : List Ptr} (h : Sound t.hash t.memory)
    (hallowed : Op.Allowed UpdatesOneRecord t (.update record newContent))
    (hstep : (Op.update record newContent).apply t = some (ret, t', freed)) :
    Sound t'.hash t'.memory := by
  rcases Option.map_eq_some_iff.mp hstep with ⟨⟨ret', hash'⟩, hupdate, hresult⟩
  cases hresult
  rcases myHashUpdate_spec h hallowed.left hallowed.right with
    ⟨_, hrefused⟩ | ⟨_, hash'', haccepted, hsound, _, _⟩
  · rw [hrefused] at hupdate
    cases hupdate
    exact h
  · rw [haccepted] at hupdate
    cases hupdate
    exact hsound

theorem sound_write {t : Table content} {memory : Ptr -> content}
    (h : Sound t.hash t.memory)
    (hallowed : Op.Allowed UpdatesOneRecord t (.write memory)) :
    Sound t.hash memory := by
  refine ⟨h.bound, h.elements, h.size, ?_⟩
  refine Chained.congr h.linked ?_ (fun _ _ => rfl)
  intro i hi
  have hmem := mem_contents.mpr ⟨i, Finset.mem_range.mp hi, rfl⟩
  unfold homeOf recHashnr
  rw [hallowed _ hmem false]

theorem sound_step {t t' : Table content} (h : Sound t.hash t.memory)
    (hstep : TableStep UpdatesOneRecord t t') : Sound t'.hash t'.memory := by
  rcases hstep with ⟨op, ret, freed, hallowed, hstep, hbound⟩
  cases op with
  | insert record block => exact sound_insert h hstep hbound
  | delete record => exact sound_delete h hstep
  | update record newContent => exact sound_update h hallowed hstep
  | replace currentRecord newRow =>
      cases hstep
      exact myHashReplace_sound h fun hvalid => (hallowed hvalid).right
  | reset =>
      cases hstep
      exact myHashReset_sound
  | write memory =>
      cases hstep
      exact sound_write (t := t) h hallowed

theorem sound_reachable {t : Table content} (h : TableReachable UpdatesOneRecord t) :
    Sound t.hash t.memory := by
  rcases h with ⟨start, hstart, hrun⟩
  induction hrun with
  | refl => exact hstart.sound
  | tail _ hstep ih => exact sound_step ih hstep

end DynHash
end MyLibs
