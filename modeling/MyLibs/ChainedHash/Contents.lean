import MyLibs.ChainedHash.Calls

/-!
# What the calls leave behind

The entries and the events after a call, whatever the keys and the callbacks
are.
-/

namespace MyLibs
namespace ChainedHash

variable {hash hash' hash'' : MyHash} {heap heap' : Heap} {events events' : List Event}
  {p key ret value : Ptr} {HASH_GROW_STEP : Nat} {outcome : Outcome}

/-- After a call the entries hold what they do in `heap`, and the call has handed
out `events`, the newest first. -/
structure Leaves (hash hash' : MyHash) (heap : Heap) (events : List Event) : Prop where
  joined : Joined hash'
  data : SameData heap hash'.heap
  ops_eq : hash'.ops = hash.ops
  log_eq : hash'.log = events ++ hash.log
  size_cases : hash'.size = hash.size ∨ hash'.size < 2 ^ 31

theorem Leaves.refl (h : Joined hash) : Leaves hash hash hash.heap [] :=
  ⟨h, SameData.refl hash.heap, rfl, rfl, Or.inl rfl⟩

theorem Leaves.trans (hfirst : Leaves hash hash' heap events)
    (hsecond : Leaves hash' hash'' heap' events') :
    Leaves hash hash'' heap' (events' ++ events) where
  joined := hsecond.joined
  data := hsecond.data
  ops_eq := hsecond.ops_eq.trans hfirst.ops_eq
  log_eq := by rw [hsecond.log_eq, hfirst.log_eq, List.append_assoc]
  size_cases := by
    cases hsecond.size_cases with
    | inl hsize => exact hsize ▸ hfirst.size_cases
    | inr hsize => exact Or.inr hsize

theorem Leaves.congr (hdata : SameData heap' heap) (h : Leaves hash hash' heap events) :
    Leaves hash hash' heap' events :=
  ⟨h.joined, hdata.trans h.data, h.ops_eq, h.log_eq, h.size_cases⟩

theorem Leaves.chained (h : Leaves hash hash' heap events)
    (hflags : forall q iter, heap q = some iter -> iter.foreach = 0) : Chained hash' :=
  h.joined.chained fun _ _ hq => h.data.foreach_eq hflags hq

/-!
## Events
-/

def eventIf (set : Bool) (event : Event) : List Event :=
  if set then [event] else []

theorem logged_log (hash : MyHash) (set : Bool) (event : Event) :
    (hash.logged set event).log = eventIf set event ++ hash.log := by
  cases set with
  | false => rfl
  | true => rfl

theorem logged_ops (set : Bool) (event : Event) : (hash.logged set event).ops = hash.ops := by
  cases set with
  | false => rfl
  | true => rfl

theorem logged_size (set : Bool) (event : Event) :
    (hash.logged set event).size = hash.size := by
  cases set with
  | false => rfl
  | true => rfl

theorem isFull_logged (set : Bool) (event : Event) :
    isFull (hash.logged set event) = isFull hash := by
  cases set with
  | false => rfl
  | true => rfl

theorem Joined.logged (h : Joined hash) (set : Bool) (event : Event) :
    Joined (hash.logged set event) := by
  cases set with
  | false => exact h
  | true => exact ⟨h.size_pos, h.linked, h.counted, h.address_lt⟩

theorem Chained.logged (h : Chained hash) (set : Bool) (event : Event) :
    Chained (hash.logged set event) := by
  cases set with
  | false => exact h
  | true => exact ⟨h.size_pos, h.linked, h.counted, h.address_lt, h.foreach_eq⟩

theorem Leaves.logged (h : Leaves hash hash' heap events) (set : Bool) (event : Event) :
    Leaves hash (hash'.logged set event) heap (eventIf set event ++ events) where
  joined := h.joined.logged set event
  data := by
    rw [logged_heap]
    exact h.data
  ops_eq := (logged_ops set event).trans h.ops_eq
  log_eq := by rw [logged_log, h.log_eq, List.append_assoc]
  size_cases := by
    rw [logged_size]
    exact h.size_cases

/-!
## Insertion
-/

theorem rehash_kept {callocOk : Bool} (h : rehash HASH_GROW_STEP hash callocOk = some hash') :
    hash'.log = hash.log ∧ (hash'.size = hash.size ∨ hash'.size < 2 ^ 31) := by
  rw [rehash] at h
  split at h
  · cases h
    exact ⟨rfl, Or.inl rfl⟩
  · rename_i hsize
    simp only [Option.bind_eq_bind, Option.bind_eq_some_iff] at h
    rcases h with ⟨_, _, hhash⟩
    cases hhash
    simp only [Bool.or_eq_true, decide_eq_true_eq, not_or, Nat.not_le] at hsize
    exact ⟨rfl, Or.inr hsize.right⟩

theorem rehashIfFull_leaves (h : Chained hash) {callocOk : Bool}
    (hpos : isFull hash = true -> callocOk = true -> 0 < uint (HASH_GROW_STEP * hash.size)) :
    exists hash', rehashIfFull HASH_GROW_STEP hash callocOk = some hash' ∧
      Leaves hash hash' hash.heap [] := by
  rw [rehashIfFull]
  split
  · rename_i hfull
    rcases h.rehash_spec (hpos hfull) with ⟨hash', hrehash, hrechained⟩
    rcases rehash_kept hrehash with ⟨hlog, hsize⟩
    exact ⟨hash', hrehash, hrechained.chained.joined, hrechained.data, hrechained.ops_eq, hlog,
      hsize⟩
  · exact ⟨hash, rfl, Leaves.refl h.joined⟩

theorem linkEntry_kept {entry : MyHashIter} (h : linkEntry hash p entry = some hash') :
    hash'.log = hash.log ∧ hash'.size = hash.size := by
  simp only [linkEntry, Option.bind_eq_bind, Option.bind_eq_some_iff] at h
  rcases h with ⟨_, _, hhash⟩
  cases hhash
  exact ⟨rfl, rfl⟩

theorem linkEntry_leaves (h : Chained hash) (hfree : hash.heap p = none) (hp : p ≠ NULL)
    (haddress : p < 2 ^ 64) {entry : MyHashIter} (hlink : linkEntry hash p entry = some hash')
    (hprev : entry.prev = NULL) (hforeach : entry.foreach = 0) :
    Leaves hash hash' (Function.update hash.heap p (some entry)) [] := by
  rcases h.linkEntry_spec hfree hp haddress hprev hforeach with ⟨hash'', hspec, hrechained⟩
  rw [hlink] at hspec
  cases hspec
  rcases linkEntry_kept hlink with ⟨hlog, hsize⟩
  exact ⟨hrechained.chained.joined, hrechained.data, hrechained.ops_eq, hlog, Or.inl hsize⟩

def addedEntry (ops : MyHashOps) (key : Ptr) (outcome : Outcome) : MyHashIter :=
  { MyHashIter.zero with
    key := if ops.keyDup then outcome.keyCopy else key
    keyHash := ops.hash key }

inductive LookaddCases (hash : MyHash) (key : Ptr) (outcome : Outcome) : Ptr -> MyHash -> Prop
  | refused : key = NULL ∨ myHashLookup hash key = some NULL ∧ outcome.entry = NULL ->
      LookaddCases hash key outcome NULL hash
  | found {p : Ptr} : key ≠ NULL -> myHashLookup hash key = some p -> p ≠ NULL ->
      LookaddCases hash key outcome p hash
  | added {hash' : MyHash} : key ≠ NULL -> myHashLookup hash key = some NULL ->
      outcome.entry ≠ NULL -> hash.heap outcome.entry = none ->
      Leaves hash hash'
        (Function.update hash.heap outcome.entry (some (addedEntry hash.ops key outcome)))
        (eventIf hash.ops.keyDup (.keyDup key outcome.keyCopy)) ->
      LookaddCases hash key outcome outcome.entry hash'

theorem myHashLookadd_cases (h : Chained hash) (hfresh : FreshEntry hash outcome)
    (hpos : isFull hash = true -> outcome.buckets = true ->
      0 < uint (HASH_GROW_STEP * hash.size))
    (hcall : myHashLookadd HASH_GROW_STEP hash key outcome = some (ret, hash')) :
    LookaddCases hash key outcome ret hash' := by
  rw [myHashLookadd] at hcall
  split at hcall
  · rename_i hkey
    cases hcall
    exact .refused (Or.inl hkey)
  · rename_i hkey
    simp only [Option.bind_eq_bind, Option.bind_eq_some_iff] at hcall
    rcases hcall with ⟨iter, hlookup, hcall⟩
    split at hcall
    · rename_i hiter
      cases hcall
      exact .found hkey hlookup hiter
    · rename_i hiter
      rw [not_not] at hiter
      subst hiter
      split at hcall
      · rename_i hentry
        cases hcall
        exact .refused (Or.inr ⟨hlookup, hentry⟩)
      · rename_i hentry
        rcases hfresh hentry with ⟨hfree, hlt⟩
        have hlogged := h.logged hash.ops.keyDup (.keyDup key outcome.keyCopy)
        rw [← isFull_logged hash.ops.keyDup (.keyDup key outcome.keyCopy),
          ← logged_size hash.ops.keyDup (.keyDup key outcome.keyCopy)] at hpos
        rcases rehashIfFull_leaves hlogged hpos with ⟨grown, hgrown, hgrowth⟩
        rw [hgrown] at hcall
        simp only [Option.bind_some, Option.bind_eq_some_iff] at hcall
        rcases hcall with ⟨linked, hlink, hpair⟩
        cases hpair
        have hdata := hgrowth.data
        rw [logged_heap] at hdata
        have hadded := linkEntry_leaves (hgrowth.chained hlogged.foreach_eq)
          (hdata.none_iff.mpr hfree) hentry hlt hlink rfl rfl
        rw [logged_ops] at hadded
        have hall := (((Leaves.refl h.joined).logged hash.ops.keyDup
          (.keyDup key outcome.keyCopy)).trans hgrowth).trans hadded
        rw [List.append_nil] at hall
        exact .added hkey hlookup hentry hfree
          (hall.congr (hdata.update_same outcome.entry _))

def storedValue (ops : MyHashOps) (value : Ptr) (outcome : Outcome) : Ptr :=
  if ops.valueDup then outcome.valueCopy else value

inductive AddCases (hash : MyHash) (key value : Ptr) (outcome : Outcome) : Ptr -> MyHash -> Prop
  | refused {looked : MyHash} : LookaddCases hash key outcome NULL looked ->
      AddCases hash key value outcome NULL looked
  | set {p : Ptr} {looked hash' : MyHash} {entry : MyHashIter} :
      LookaddCases hash key outcome p looked -> p ≠ NULL -> looked.heap p = some entry ->
      Leaves looked hash' (Function.update looked.heap p
          (some { entry with value := storedValue hash.ops value outcome }))
        (eventIf hash.ops.valueDup (.valueDup value outcome.valueCopy) ++
          eventIf hash.ops.valueFree (.valueFree entry.value)) ->
      AddCases hash key value outcome p hash'

theorem LookaddCases.chained (h : Chained hash) (hcases : LookaddCases hash key outcome ret hash') :
    Chained hash' ∧ hash'.ops = hash.ops := by
  cases hcases with
  | refused _ => exact ⟨h, rfl⟩
  | found _ _ _ => exact ⟨h, rfl⟩
  | added hkey _ hentry hfree hleaves =>
      refine ⟨hleaves.chained ?_, hleaves.ops_eq⟩
      intro q iter hq
      rcases update_some_cases hq with ⟨_, hiter⟩ | ⟨_, hq⟩
      · rw [hiter]
        rfl
      · exact h.foreach_eq q iter hq

theorem Leaves.write (h : Leaves hash hash' heap events) {entry : MyHashIter}
    (hp : hash'.heap p = some entry) (entry' : MyHashIter) (hnext : entry'.next = entry.next)
    (hprev : entry'.prev = entry.prev) (hhash : entry'.keyHash = entry.keyHash) :
    Leaves hash { hash' with heap := Function.update hash'.heap p (some entry') }
      (Function.update hash'.heap p (some entry')) events where
  joined := h.joined.write hp entry' hnext hprev hhash
  data := SameData.refl _
  ops_eq := h.ops_eq
  log_eq := h.log_eq
  size_cases := h.size_cases

theorem myHashAdd_cases (h : Chained hash) (hfresh : FreshEntry hash outcome)
    (hpos : isFull hash = true -> outcome.buckets = true ->
      0 < uint (HASH_GROW_STEP * hash.size))
    (hcall : myHashAdd HASH_GROW_STEP hash key value outcome = some (ret, hash')) :
    AddCases hash key value outcome ret hash' := by
  simp only [myHashAdd, Option.bind_eq_bind, Option.bind_eq_some_iff] at hcall
  rcases hcall with ⟨⟨iter, looked⟩, hlookadd, hcall⟩
  have hlooked := myHashLookadd_cases h hfresh hpos hlookadd
  rcases hlooked.chained h with ⟨hchained, hops⟩
  simp only at hcall
  split at hcall
  · rename_i hiter
    cases hcall
    subst hiter
    exact .refused hlooked
  · rename_i hiter
    simp only [Option.bind_eq_some_iff] at hcall
    rcases hcall with ⟨entry, hentry, heap, hwrite, hpair⟩
    simp only [logged_heap, logged_ops] at hwrite hpair
    rw [writeIter_of_some hentry] at hwrite
    cases hwrite
    cases hpair
    have hlogged := ((Leaves.refl hchained.joined).logged looked.ops.valueFree
      (.valueFree entry.value)).logged looked.ops.valueDup (.valueDup value outcome.valueCopy)
    have hentry' : ((looked.logged looked.ops.valueFree (.valueFree entry.value)).logged
        looked.ops.valueDup (.valueDup value outcome.valueCopy)).heap ret = some entry := by
      rw [logged_heap, logged_heap, hentry]
    have hset := hlogged.write hentry'
      { entry with value := storedValue looked.ops value outcome } rfl rfl rfl
    simp only [logged_heap, logged_ops, List.append_nil] at hset
    refine .set hlooked hiter hentry ?_
    rw [← hops]
    exact hset

/-!
## Deletion
-/

def deleteEvents (ops : MyHashOps) (entry : MyHashIter) : List Event :=
  eventIf ops.keyFree (.keyFree entry.key) ++ eventIf ops.valueFree (.valueFree entry.value)

/-- An entry without its key and its value, as a deletion that is put off leaves it. -/
def MyHashIter.cleared (iter : MyHashIter) : MyHashIter :=
  { iter with value := NULL, key := NULL, foreach := 0 }

inductive DeleteCases (hash : MyHash) (p : Ptr) : MyHash -> Prop
  | none : p = NULL -> DeleteCases hash p hash
  | deferred {hash' : MyHash} {entry : MyHashIter} : p ≠ NULL -> hash.heap p = some entry ->
      entry.foreach ≠ 0 ->
      Leaves hash hash' (Function.update hash.heap p (some entry.cleared))
        (deleteEvents hash.ops entry) ->
      DeleteCases hash p hash'
  | removed {hash' : MyHash} {entry : MyHashIter} : p ≠ NULL -> hash.heap p = some entry ->
      entry.foreach = 0 ->
      Leaves hash hash' (Function.update hash.heap p none)
        (.free p :: deleteEvents hash.ops entry) ->
      DeleteCases hash p hash'

theorem myHashIterDelete_cases (h : Joined hash)
    (hcall : myHashIterDelete hash p = some hash') : DeleteCases hash p hash' := by
  rw [myHashIterDelete] at hcall
  split at hcall
  · rename_i hp
    cases hcall
    exact .none hp
  · rename_i hp
    simp only [Option.bind_eq_bind, Option.bind_eq_some_iff] at hcall
    rcases hcall with ⟨entry, hentry, hcall⟩
    have hlogged := ((Leaves.refl h).logged hash.ops.valueFree
      (.valueFree entry.value)).logged hash.ops.keyFree (.keyFree entry.key)
    have hp' : ((hash.logged hash.ops.valueFree (.valueFree entry.value)).logged
        hash.ops.keyFree (.keyFree entry.key)).heap p = some entry := by
      rw [logged_heap, logged_heap, hentry]
    simp only [logged_ops, logged_heap] at hcall
    split at hcall
    · rename_i hflag
      cases hcall
      have hcleared := hlogged.write hp' entry.cleared rfl rfl rfl
      simp only [logged_ops, logged_heap, List.append_nil] at hcleared
      exact .deferred hp hentry hflag hcleared
    · rename_i hflag
      rcases hlogged.joined.unlinkEntry_spec hp' _ { entry with value := NULL, key := NULL }
        rfl rfl rfl with ⟨hash'', hunlink, hjoined, hdata, hops, hsize⟩
      have hlog := (unlinkEntry_freed hunlink).right
      simp only [logged_ops, logged_heap] at hunlink hdata hops
      rw [hcall] at hunlink
      cases hunlink
      rw [logged_size, logged_size] at hsize
      refine .removed hp hentry (not_not.mp hflag) ⟨hjoined, hdata, hops, ?_, Or.inl hsize⟩
      rw [hlog, logged_log, logged_log]
      simp [deleteEvents]

end ChainedHash
end MyLibs
