import MyLibs.ChainedHash.Lifetimes

/-!
# Clearing a table

`my_hash_clear` leaves at once when it is given a table, so only a table that
holds nothing is as clearing should leave it, and `my_hash_uninit` frees no
entry.
-/

namespace MyLibs
namespace ChainedHash

open Foundation

variable {hash hash' : MyHash} {p key : Ptr} {HASH_GROW_STEP size : Nat} {ops : MyHashOps}
  {made : List Ptr}

def Empty (hash : MyHash) : Prop :=
  forall p, hash.heap p = none

def releaseEvents (ops : MyHashOps) (entry : Ptr × MyHashIter) : List Event :=
  (if ops.keyFree then [.keyFree entry.2.key] else []) ++
    (if ops.valueFree then [.valueFree entry.2.value] else []) ++ [.free entry.1]

/-- The table is empty, and what it held has been released, each entry once. -/
structure Cleared (hash hash' : MyHash) : Prop where
  num_eq : hash'.num = 0
  buckets_eq : forall b, b < hash'.size -> hash'.buckets b = NULL
  lookup_eq : forall key, myHashLookup hash' key = some NULL
  released : exists entries : List (Ptr × MyHashIter), entries.Nodup ∧
    (forall p iter, (p, iter) ∈ entries <-> hash.heap p = some iter) ∧
    exists events, hash'.log = events ++ hash.log ∧
      List.Perm events (entries.flatMap (releaseEvents hash.ops))

def AllFreed (made : List Ptr) (log : List Event) : Prop :=
  forall p, made.count p = log.count (.free p)

/-!
## Empty tables
-/

theorem Chained.num_eq_zero_iff (h : Chained hash) : hash.num = 0 <-> Empty hash := by
  rcases h.counted with ⟨entries, hentries, hnum⟩
  rw [hnum, Finset.card_eq_zero]
  constructor
  · intro hempty p
    by_contra hp
    rw [← Ne, ← hentries, hempty] at hp
    exact absurd hp (Finset.notMem_empty p)
  · intro hempty
    rw [Finset.eq_empty_iff_forall_notMem]
    intro p hp
    exact (hentries p).mp hp (hempty p)

theorem Chained.buckets_eq (h : Chained hash) (hempty : Empty hash) {b : Nat}
    (hb : b < hash.size) : hash.buckets b = NULL := by
  rcases h.linked with ⟨chains, hlinked, _⟩
  cases hlinked.head_cases hb with
  | inl hnull => exact hnull
  | inr hmem =>
      rcases (hlinked.doubly b hb).exists_links hmem with ⟨_, _, hlinks⟩
      rw [heapLinks_eq_none_iff.mpr (hempty _)] at hlinks
      cases hlinks

theorem Chained.lookup_empty (h : Chained hash) (hempty : Empty hash) (key : Ptr) :
    myHashLookup hash key = some NULL := by
  rw [myHashLookup]
  split
  · rfl
  · have hbucket : HASH_INDEX (hash.ops.hash key) hash.size < hash.size :=
      Nat.mod_lt _ h.size_pos
    rw [h.buckets_eq hempty hbucket, findKey, if_pos rfl]

theorem Chained.cleared (h : Chained hash) (hempty : Empty hash) : Cleared hash hash where
  num_eq := h.num_eq_zero_iff.mpr hempty
  buckets_eq := fun _ hb => h.buckets_eq hempty hb
  lookup_eq := h.lookup_empty hempty
  released := by
    refine ⟨[], List.nodup_nil, ?_, [], rfl, List.Perm.refl _⟩
    intro p iter
    rw [hempty p]
    constructor
    · intro hp
      cases hp
    · intro hp
      cases hp

/-!
## Runs of a table
-/

theorem Lifetime.chained (hrun : Lifetime HASH_GROW_STEP (myHashInit size ops) made hash) :
    Chained hash :=
  (hrun.effect (chained_init size ops)).chained

/-- An entry that was allocated has been freed or is still there. -/
theorem Lifetime.account (hrun : Lifetime HASH_GROW_STEP (myHashInit size ops) made hash)
    (p : Ptr) : live hash.heap p + hash.log.count (.free p) = made.count p := by
  have haccount := (hrun.effect (chained_init size ops)).account p
  have hstart : live (myHashInit size ops).heap p + (myHashInit size ops).log.count (.free p) = 0 :=
    rfl
  rw [haccount, hstart, Nat.zero_add]

theorem Lifetime.allFreed_iff (hrun : Lifetime HASH_GROW_STEP (myHashInit size ops) made hash) :
    AllFreed made hash.log <-> Empty hash := by
  constructor
  · intro hall p
    have haccount := hrun.account p
    rw [hall p] at haccount
    by_contra hp
    rw [live, if_neg hp] at haccount
    omega
  · intro hempty p
    rw [← hrun.account p, live, if_pos (hempty p), Nat.zero_add]

/-- Clearing a table does what it should, and so does its end, exactly when the
table holds no entry at that time. -/
theorem hash_clear_iff (hrun : Lifetime HASH_GROW_STEP (myHashInit size ops) made hash) :
    ((exists hash', myHashClear (some hash) = some (some hash') ∧ Cleared hash hash') <->
        Empty hash) ∧
      ((exists heap log, myHashUninit (some hash) = some (heap, log) ∧ AllFreed made log) <->
        Empty hash) := by
  constructor
  · constructor
    · intro h
      rcases h with ⟨hash', hclear, hcleared⟩
      rw [myHashClear_table] at hclear
      cases hclear
      exact hrun.chained.num_eq_zero_iff.mp hcleared.num_eq
    · intro hempty
      exact ⟨hash, myHashClear_table hash, hrun.chained.cleared hempty⟩
  · constructor
    · intro h
      rcases h with ⟨heap, log, huninit, hall⟩
      cases huninit
      exact hrun.allFreed_iff.mp hall
    · intro hempty
      exact ⟨hash.heap, hash.log, rfl, hrun.allFreed_iff.mpr hempty⟩

theorem exists_lifetime : exists hash, Lifetime 2 (myHashInit 0 addressOps) [100] hash ∧
    hash.num = 1 ∧ myHashLookup hash 5 = some 100 ∧ hash.log = [] := by
  let call : Call := .add 5 7 ⟨100, true, 0, 0⟩
  have hdefined : call.Defined 2 (myHashInit 0 addressOps) :=
    ⟨by decide, fun _ => ⟨rfl, by decide⟩, fun h => absurd h (by decide)⟩
  exact ⟨_, Lifetime.nil.call hdefined rfl, rfl, rfl, rfl⟩

theorem hash_clear_iff_one : exists hash, Lifetime 2 (myHashInit 0 addressOps) [100] hash ∧
    ¬exists heap log, myHashUninit (some hash) = some (heap, log) ∧ AllFreed [100] log := by
  rcases exists_lifetime with ⟨hash, hrun, hnum, _⟩
  refine ⟨hash, hrun, fun hall => ?_⟩
  have hempty := (hash_clear_iff hrun).right.mp hall
  rw [← hrun.chained.num_eq_zero_iff, hnum] at hempty
  exact absurd hempty (by decide)

/-- Clearing a table of one entry leaves it there, and the end of the table does
not free it. -/
theorem hash_clear_keeps : exists hash, Lifetime 2 (myHashInit 0 addressOps) [100] hash ∧
    myHashClear (some hash) = some (some hash) ∧ hash.num = 1 ∧
    myHashLookup hash 5 = some 100 ∧
    (myHashUninit (some hash)).map Prod.snd = some [] := by
  rcases exists_lifetime with ⟨hash, hrun, hnum, hlookup, hlog⟩
  refine ⟨hash, hrun, myHashClear_table hash, hnum, hlookup, ?_⟩
  show some hash.log = some []
  rw [hlog]

end ChainedHash
end MyLibs
