import Mathlib.Data.List.Basic
import MyLibs.ChainedHash.Deletions

/-!
# Forward iteration

`my_hash_begin` and repeated `my_hash_next` go through the entries in the order
of `my_hash_foreach`.
-/

namespace MyLibs
namespace ChainedHash

open Foundation

def forwardFrom (hash : MyHash) : Nat -> Ptr -> Option (List Ptr)
  | 0, _ => none
  | turns + 1, iter =>
      if iter = NULL then
        some []
      else do
        let next <- myHashNext hash iter
        let rest <- forwardFrom hash turns next
        some (iter :: rest)

def forward (turns : Nat) (hash : MyHash) : Option (List Ptr) :=
  forwardFrom hash turns (myHashBegin hash)

abbrev Looker (τ : Type) := τ -> Ptr × Ptr -> MyHash -> Nat × τ

def Looker.func {τ : Type} (look : Looker τ) : MyHashFunc τ := fun own content hash =>
  some ((look own content hash).1, (look own content hash).2, hash)

/-- What it answers at an entry. The walk has flagged this one and no other. -/
def Looker.answer {τ : Type} (look : Looker τ) (hash : MyHash) (own : τ) (p : Ptr) : Nat × τ :=
  look own (hash.contentAt p) (hash.marked [p])

variable {τ : Type} {hash : MyHash} {chains : Nat -> List Ptr} {p : Ptr} {i count turns : Nat}
  {first rest : List Ptr}

/-!
## The next entry
-/

theorem JoinedBy.firstFrom_eq (h : JoinedBy hash chains) (hle : i + count <= hash.size) :
    firstFrom hash count i = (entriesFrom chains i count).headD NULL := by
  induction count generalizing i with
  | zero => rfl
  | succ count ih =>
      have hi : i < hash.size := by omega
      have hbucket : hash.buckets i = (chains i).headD NULL := (h.linked.doubly i hi).start_eq
      have hrest : i + 1 + count <= hash.size := by omega
      rw [firstFrom, entriesFrom_succ, hbucket]
      cases hchain : chains i with
      | nil =>
          rw [List.headD_nil, if_neg (not_not_intro rfl)]
          exact ih hrest
      | cons q path =>
          have hq : q ≠ NULL := h.linked.ne_nil hi (hchain ▸ List.mem_cons_self ..)
          rw [List.headD_cons, if_pos hq]
          rfl

theorem JoinedBy.begin_eq (h : JoinedBy hash chains) :
    myHashBegin hash = (entriesFrom chains 0 hash.size).headD NULL :=
  h.firstFrom_eq (Nat.le_of_eq (Nat.zero_add _))

theorem entriesFrom_split (chains : Nat -> List Ptr) {b size : Nat} (hb : b < size) :
    entriesFrom chains 0 size =
      entriesFrom chains 0 b ++ (chains b ++ entriesFrom chains (b + 1) (size - (b + 1))) := by
  have hsplit : List.range' 0 size =
      List.range' 0 b ++ b :: List.range' (b + 1) (size - (b + 1)) := by
    have happend := List.range'_append_1 (s := 0) (m := b) (n := size - (b + 1) + 1)
    rw [List.range'_succ, Nat.zero_add] at happend
    rw [happend]
    congr 1
    omega
  rw [entriesFrom, hsplit, List.flatMap_append, List.flatMap_cons]
  rfl

/-- `my_hash_next` returns the entry behind in the order of the buckets. -/
theorem JoinedBy.next_of_split (h : JoinedBy hash chains) (hindexed : Indexed hash)
    (hsplit : entriesFrom chains 0 hash.size = first ++ p :: rest) :
    myHashNext hash p = some (rest.headD NULL) := by
  have hp : hash.heap p ≠ none := by
    rw [← h.mem_entries, hsplit]
    exact List.mem_append_right _ (List.mem_cons_self ..)
  have hhome := home_lt h.size_pos hash.heap p
  have hdoubly := h.linked.doubly _ hhome
  rcases List.append_of_mem ((h.mem_iff p).mpr hp) with ⟨before, after, hchain⟩
  -- what is behind the entry on its chain, and in the later buckets
  have horder := entriesFrom_split chains hhome
  have hnodup := h.entries_nodup
  rw [hchain, List.append_assoc, ← List.append_assoc, List.cons_append] at horder
  rw [hsplit] at horder hnodup
  have hfirst : p ∉ first := fun hmem =>
    (List.nodup_append.mp hnodup).right.right p hmem p (List.mem_cons_self ..) rfl
  have hrest : p ∉ rest := (List.nodup_cons.mp (List.nodup_append.mp hnodup).right.left).left
  have hbehind := ((List.append_cons_inj_of_notMem hfirst hrest).mp horder).right.right
  rw [hchain] at hdoubly
  rcases exists_of_heapLinks hdoubly.links_at with ⟨iter, hiter, hnext, _⟩
  cases after with
  | nil =>
      rw [myHashNext_last h.null_none hindexed hiter hnext, h.firstFrom_eq (by omega), hbehind]
      rfl
  | cons q after =>
      have hq : iter.next ≠ NULL := by
        rw [hnext]
        exact h.linked.ne_nil hhome (hchain ▸ by simp)
      rw [myHashNext_next h.null_none hiter hq, hnext, hbehind]
      rfl

theorem JoinedBy.forwardFrom_eq (h : JoinedBy hash chains) (hindexed : Indexed hash)
    (hsplit : entriesFrom chains 0 hash.size = first ++ rest) (hturns : rest.length < turns) :
    forwardFrom hash turns (rest.headD NULL) = some rest := by
  induction rest generalizing first turns with
  | nil =>
      cases turns with
      | zero => cases hturns
      | succ turns => exact if_pos rfl
  | cons p rest ih =>
      cases turns with
      | zero => cases hturns
      | succ turns =>
          have hp : hash.heap p ≠ none := by
            rw [← h.mem_entries, hsplit]
            exact List.mem_append_right _ (List.mem_cons_self ..)
          have hne : p ≠ NULL := by
            intro heq
            rw [heq] at hp
            exact hp h.null_none
          have hrest : entriesFrom chains 0 hash.size = (first ++ [p]) ++ rest := by
            rw [hsplit, List.append_cons]
          rw [List.headD_cons, forwardFrom, if_neg hne, h.next_of_split hindexed hsplit]
          simp only [Option.bind_eq_bind, Option.bind_some,
            ih hrest (Nat.lt_of_succ_lt_succ hturns)]

/-!
## The walk with a callback that looks
-/

theorem JoinedBy.threaded (h : JoinedBy hash chains)
    (hflags : forall q other, hash.heap q = some other -> other.foreach = 0) :
    Threaded hash chains where
  linked := h.linked
  length_le := fun _ hb => h.length_le hb
  foreach_eq := hflags

/-- A walk with a callback that looks visits the entries in their order, until an answer
stops it, and leaves the table as it was. -/
theorem JoinedBy.foreach_look (h : JoinedBy hash chains)
    (hflags : forall q other, hash.heap q = some other -> other.foreach = 0) (look : Looker τ)
    (hnum : hash.num < turns) (hsize : hash.size < turns) (own : τ) :
    myHashForeach turns hash (some look.func) own =
      some ((visitAll (look.answer hash) (entriesFrom chains 0 hash.size) own).2, hash) := by
  have hquiet : EachVisit
      (fun own p => p ∉ [] ∧
        Cursor.Quiet look.func hash.marked hash.contentAt (look.answer hash) [] own p)
      (look.answer hash) (entriesFrom chains 0 hash.size) own :=
    eachVisit_of_forall fun _ _ => ⟨List.not_mem_nil, rfl⟩
  have hwalk := walkBuckets_quiet (h.threaded hflags) hnum (Nat.zero_add _) hsize hquiet
  rw [marked_nil] at hwalk
  exact hwalk

/-- Forward iteration returns every entry once, in the order in which the walks answer
for them. -/
structure IteratesForward (hash : MyHash) (order : List Ptr) : Prop where
  nodup : order.Nodup
  entries : forall p, p ∈ order <-> hash.heap p ≠ none
  length_eq : order.length = hash.num
  forward : forall turns, hash.num < turns -> forward turns hash = some order
  foreach : forall (τ : Type) (look : Looker τ) (own : τ) (turns : Nat),
    hash.num < turns -> hash.size < turns ->
    myHashForeach turns hash (some look.func) own =
      some ((visitAll (look.answer hash) order own).2, hash)

def collect : Looker (List (Ptr × Ptr)) := fun own content _ => (0, own ++ [content])

theorem visitAll_collect (hash : MyHash) (order : List Ptr) (own : List (Ptr × Ptr)) :
    (visitAll (collect.answer hash) order own).2 = own ++ order.map hash.contentAt := by
  induction order generalizing own with
  | nil => exact (List.append_nil own).symm
  | cons p order ih =>
      have hzero : (collect.answer hash own p).1 = 0 := rfl
      rw [visitAll, if_pos hzero, ih, List.map_cons, List.append_cons]
      rfl

theorem IteratesForward.collected (h : IteratesForward hash rest) (hnum : hash.num < turns)
    (hsize : hash.size < turns) : myHashForeach turns hash (some collect.func) [] =
      some (rest.map hash.contentAt, hash) := by
  rw [h.foreach _ collect [] turns hnum hsize, visitAll_collect]
  rfl

variable {HASH_GROW_STEP size : Nat} {ops : MyHashOps} {made : List Ptr}

/-- `my_hash_begin` and repeated `my_hash_next` return every entry once and then
`NULL`, in the order in which `my_hash_foreach` visits them. -/
theorem hash_forward_complete
    (hrun : Lifetime HASH_GROW_STEP (myHashInit size ops) made hash) :
    exists order, IteratesForward hash order := by
  have hchained := hrun.chained
  rcases hchained.joined.exists_by with ⟨chains, hby⟩
  refine ⟨entriesFrom chains 0 hash.size, hby.entries_nodup, hby.mem_entries, hby.entries_length,
    ?_, fun τ look own turns hnum hsize =>
      hby.foreach_look hchained.foreach_eq look hnum hsize own⟩
  intro turns hturns
  rw [forward, hby.begin_eq]
  have hall : entriesFrom chains 0 hash.size = [] ++ entriesFrom chains 0 hash.size := rfl
  exact hby.forwardFrom_eq hrun.indexed hall (hby.entries_length ▸ hturns)

theorem grownTable_threaded : exists chains, Threaded grownTable chains ∧
    entriesFrom chains 0 grownTable.size = [103, 100, 102] := by
  have hchained := grownTable_lifetime.chained
  rcases hchained.joined.exists_by with ⟨chains, hby⟩
  refine ⟨chains, hby.threaded hchained.foreach_eq, ?_⟩
  have hall : entriesFrom chains 0 grownTable.size =
      [] ++ entriesFrom chains 0 grownTable.size := rfl
  have hforward : forward 4 grownTable = some [103, 100, 102] := rfl
  have hturns : (entriesFrom chains 0 grownTable.size).length < 4 := by
    rw [hby.entries_length]
    decide
  rw [forward, hby.begin_eq, hby.forwardFrom_eq grownTable_lifetime.indexed hall hturns]
    at hforward
  exact Option.some.inj hforward

theorem hash_forward_complete_grown :
    IteratesForward grownTable [103, 100, 102] ∧
      myHashForeach 4 grownTable (some collect.func) [] =
        some ([(8, NULL), (5, NULL), (7, NULL)], grownTable) := by
  rcases hash_forward_complete grownTable_lifetime with ⟨order, horder⟩
  have hforward : forward 4 grownTable = some [103, 100, 102] := rfl
  rw [horder.forward 4 (by decide)] at hforward
  cases hforward
  exact ⟨horder, horder.collected (by decide) (by decide)⟩

end ChainedHash
end MyLibs
