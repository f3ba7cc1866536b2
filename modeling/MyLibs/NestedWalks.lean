import MyLibs.ChainedHash.Forward
import MyLibs.LinkedList.Runs
import MyLibs.LinkedList.Walks

/-!
# Read-only walks over lists and tables

A callback that inserts and deletes nothing, but may walk over its container
itself. All walks share the one flag of an item, so an inner walk that comes to
an item takes off the flag of an outer walk that stands there, which then frees
the item.
-/

namespace MyLibs

open Foundation

/-!
## Lists
-/

namespace LinkedList

variable {τ : Type} {mem : Memory} {list : Ptr} {cells : List (Ptr × Ptr)} {turns : Nat}

abbrev readOnlyFunc (turns : Nat) (list : Ptr) (callback : τ -> Ptr -> ReadOnly τ) :
    MyListFunc τ :=
  Callback.visitor (walks turns list) callback

def CleanWalk (mem : Memory) (cells : List (Ptr × Ptr)) (way : Way)
    (callback : τ -> Ptr -> ReadOnly τ) (own : τ) : Prop :=
  Callback.CleanVisits (mem.still cells) way own callback []

theorem Holds.walk_clean (h : Holds mem list cells) (hturns : cells.length < turns) {way : Way}
    {callback : τ -> Ptr -> ReadOnly τ} {own : τ} (hclean : CleanWalk mem cells way callback own) :
    exists own', way.walk turns mem list (some (readOnlyFunc turns list callback)) own =
      some (own', mem) := by
  rcases Callback.foreach_clean (h.walked hturns) hclean with ⟨own', hwalk⟩
  rw [show (mem.still cells).marked [] = mem from marked_nil] at hwalk
  exact ⟨own', hwalk⟩

theorem Holds.walk_broken (h : Holds mem list cells) (hturns : cells.length < turns) {way : Way}
    {callback : τ -> Ptr -> ReadOnly τ} {own own' : τ} {mem' : Memory}
    (hclean : ¬CleanWalk mem cells way callback own)
    (hwalk : way.walk turns mem list (some (readOnlyFunc turns list callback)) own =
      some (own', mem')) : mem.log.length < mem'.log.length := by
  have hmarked : (mem.still cells).marked [] = mem := marked_nil
  apply Callback.foreach_broken (h.walked hturns) hclean
  rw [hmarked]
  exact hwalk

end LinkedList

/-!
## Tables
-/

namespace ChainedHash

variable {τ : Type} {hash : MyHash} {chains : Nat -> List Ptr} {turns : Nat}

abbrev readOnlyFunc (turns : Nat) (callback : τ -> Ptr × Ptr -> ReadOnly τ) : MyHashFunc τ :=
  Callback.visitor (walks turns) callback

def CleanWalk (hash : MyHash) (chains : Nat -> List Ptr) (callback : τ -> Ptr × Ptr -> ReadOnly τ)
    (own : τ) : Prop :=
  Callback.CleanVisits (hash.still chains) () own callback []

theorem Threaded.walk_clean (h : Threaded hash chains) (hturns : hash.num < turns)
    (hsize : hash.size < turns) {callback : τ -> Ptr × Ptr -> ReadOnly τ} {own : τ}
    (hclean : CleanWalk hash chains callback own) :
    exists own', myHashForeach turns hash (some (readOnlyFunc turns callback)) own =
      some (own', hash) := by
  rcases Callback.foreach_clean (h.walked hturns hsize) hclean with ⟨own', hwalk⟩
  rw [show (hash.still chains).marked [] = hash from marked_nil] at hwalk
  exact ⟨own', hwalk⟩

theorem Threaded.walk_broken (h : Threaded hash chains) (hturns : hash.num < turns)
    (hsize : hash.size < turns) {callback : τ -> Ptr × Ptr -> ReadOnly τ} {own own' : τ}
    {hash' : MyHash} (hclean : ¬CleanWalk hash chains callback own)
    (hwalk : myHashForeach turns hash (some (readOnlyFunc turns callback)) own =
      some (own', hash')) : hash.log.length < hash'.log.length := by
  have hmarked : (hash.still chains).marked [] = hash := marked_nil
  apply Callback.foreach_broken (h.walked hturns hsize) hclean
  rw [hmarked]
  exact hwalk

end ChainedHash

/-!
## Which walks leave their container alone
-/

theorem unchanged_iff {τ σ ε : Type} {walk : Option (τ × σ)} {start : σ} {clean : Prop}
    (log : σ -> List ε) (hclean : clean -> exists own', walk = some (own', start))
    (hbroken : forall own' stop, ¬clean -> walk = some (own', stop) ->
      (log start).length < (log stop).length) :
    ((exists own', walk = some (own', start)) <-> clean) ∧
      forall own' stop, walk = some (own', stop) -> (log stop = log start <-> clean) := by
  constructor
  · constructor
    · intro hwalk
      rcases hwalk with ⟨own', hwalk⟩
      by_contra hdirty
      exact Nat.lt_irrefl _ (hbroken own' start hdirty hwalk)
    · exact hclean
  · intro own' stop hwalk
    constructor
    · intro hlog
      by_contra hdirty
      have hfreed := hbroken own' stop hdirty hwalk
      rw [hlog] at hfreed
      exact Nat.lt_irrefl _ hfreed
    · intro hquiet
      rcases hclean hquiet with ⟨own'', hsame⟩
      rw [hwalk] at hsame
      cases hsame
      rfl

/-- A walk with a read-only callback leaves the list or the table as it was
exactly when no walk inside it comes to an item on which an outer one stands;
otherwise, if it returns at all, something has been freed. -/
theorem foreach_unchanged_iff {τ : Type} (own : τ) :
    (forall mem list cells, LinkedList.Holds mem list cells ->
      forall turns, cells.length < turns -> forall way callback,
        ((exists own', way.walk turns mem list
              (some (LinkedList.readOnlyFunc turns list callback)) own = some (own', mem)) <->
            LinkedList.CleanWalk mem cells way callback own) ∧
          forall own' mem', way.walk turns mem list
              (some (LinkedList.readOnlyFunc turns list callback)) own = some (own', mem') ->
            (mem'.log = mem.log <-> LinkedList.CleanWalk mem cells way callback own)) ∧
      forall hash chains, ChainedHash.Threaded hash chains ->
        forall turns, hash.num < turns -> hash.size < turns -> forall callback,
          ((exists own', ChainedHash.myHashForeach turns hash
                (some (ChainedHash.readOnlyFunc turns callback)) own = some (own', hash)) <->
              ChainedHash.CleanWalk hash chains callback own) ∧
            forall own' hash', ChainedHash.myHashForeach turns hash
                (some (ChainedHash.readOnlyFunc turns callback)) own = some (own', hash') ->
              (hash'.log = hash.log <-> ChainedHash.CleanWalk hash chains callback own) := by
  constructor
  · intro mem list cells h turns hturns way callback
    exact unchanged_iff (fun mem' : LinkedList.Memory => mem'.log) (h.walk_clean hturns)
      fun _ _ hclean hwalk => h.walk_broken hturns hclean hwalk
  · intro hash chains h turns hturns hsize callback
    exact unchanged_iff (fun hash' : ChainedHash.MyHash => hash'.log)
      (h.walk_clean hturns hsize) fun _ _ hclean hwalk => h.walk_broken hturns hsize hclean hwalk

def pairList : LinkedList.Memory where
  lists := fun p => if p = 1 then some ⟨64, 128, 2⟩ else none
  items := fun p =>
    if p = 64 then some ⟨5, 1, 128, NULL, 0⟩
    else if p = 128 then some ⟨7, 1, NULL, 64, 0⟩
    else none
  log := []

theorem pairList_holds : LinkedList.Holds pairList 1 [(64, 5), (128, 7)] where
  list_ne := by decide
  null := rfl
  header := rfl
  chain := ⟨rfl, 128, rfl, rfl, NULL, rfl, rfl⟩
  payload := by
    intro c hc
    simp only [List.mem_cons, List.not_mem_nil, or_false] at hc
    rcases hc with heq | heq
    · rw [heq]
      rfl
    · rw [heq]
      rfl
  bound := by
    intro p hp
    simp only [pairList] at hp
    split at hp
    · rename_i heq
      rw [heq]
      decide
    · split at hp
      · rename_i heq
        rw [heq]
        decide
      · exact absurd rfl hp

def pairsWithFirst {δ α σ : Type} [DecidableEq α] (d : δ) (first : α) :
    Nat -> α -> Callback δ α σ Nat :=
  fun own a =>
    if a = first then .ret 0 own
    else .walk d own (fun own _ => .ret 1 (own + 1)) fun own => .ret 0 own

theorem cleanVisits_pairsWithFirst {δ ι α σ : Type} [DecidableEq α] (S : Still δ ι α σ)
    {d : δ} {p : ι} {rest : List ι} (horder : S.order d = p :: rest) (hp : p ∉ rest)
    (hcontent : forall q, q ∈ rest -> S.content q ≠ S.content p) (own : Nat) :
    Callback.CleanVisits S d own (pairsWithFirst d (S.content p)) [] := by
  rw [Callback.CleanVisits, horder]
  refine ⟨⟨List.not_mem_nil, ?_⟩, fun _ => ?_⟩
  · rw [pairsWithFirst, if_pos rfl]
    trivial
  · have hall : EachVisit (fun _ _ => True)
        (Callback.answers S (pairsWithFirst d (S.content p)) []) rest
        (Callback.answers S (pairsWithFirst d (S.content p)) [] own p).2 :=
      eachVisit_of_forall fun _ _ => trivial
    refine hall.mono fun own q hq _ => ⟨List.not_mem_nil, ?_⟩
    rw [pairsWithFirst, if_neg (hcontent q hq), Callback.Clean, horder]
    have hne : p ∉ [q] := fun heq => hp (List.mem_singleton.mp heq ▸ hq)
    exact ⟨⟨⟨hne, trivial⟩, fun hone => absurd hone Nat.one_ne_zero⟩, trivial⟩

theorem foreach_unchanged_iff_pairsWithFirst :
    (exists own', LinkedList.myListForeach 3 pairList 1
      (some (LinkedList.readOnlyFunc 3 1 (pairsWithFirst .foreach 5))) 0 =
        some (own', pairList)) ∧
      exists own', ChainedHash.myHashForeach 4 ChainedHash.grownTable
        (some (ChainedHash.readOnlyFunc 4 (pairsWithFirst () (8, NULL)))) 0 =
          some (own', ChainedHash.grownTable) := by
  constructor
  · apply ((foreach_unchanged_iff 0).left pairList 1 _ pairList_holds 3 (by decide) .foreach
      (pairsWithFirst .foreach 5)).left.mpr
    exact cleanVisits_pairsWithFirst (pairList.still [(64, 5), (128, 7)]) (d := .foreach) rfl
      (by decide) (by decide) 0
  · rcases ChainedHash.grownTable_threaded with ⟨chains, hthreaded, horder⟩
    apply ((foreach_unchanged_iff 0).right _ chains hthreaded 4 (by decide) (by decide)
      (pairsWithFirst () (8, NULL))).left.mpr
    have hcontent : forall q, q ∈ [100, 102] ->
        ChainedHash.grownTable.contentAt q ≠ ChainedHash.grownTable.contentAt 103 := by decide
    exact cleanVisits_pairsWithFirst (ChainedHash.grownTable.still chains) horder (by decide)
      hcontent 0

def allPairs {δ α σ : Type} (d : δ) : Unit -> α -> Callback δ α σ Unit :=
  fun _ _ => .walk d () (fun _ _ => .ret 0 ()) fun _ => .ret 0 ()

/-- Comparing all pairs empties a list of two items, and a table of one entry. -/
theorem foreach_frees :
    (LinkedList.Holds pairList 1 [(64, 5), (128, 7)] ∧
      (LinkedList.myListForeach 3 pairList 1
        (some (LinkedList.readOnlyFunc 3 1 (allPairs .foreach))) ()).map (fun r => r.2.log) =
          some [128, 64] ∧
      (LinkedList.myListRforeach 3 pairList 1
        (some (LinkedList.readOnlyFunc 3 1 (allPairs .rforeach))) ()).map (fun r => r.2.log) =
          some [64, 128]) ∧
      exists hash, ChainedHash.Run 2 (ChainedHash.myHashInit 1 ChainedHash.addressOps)
          [.add 5 7 ⟨100, true, 0, 0⟩] hash ∧
        (ChainedHash.myHashForeach 2 hash
          (some (ChainedHash.readOnlyFunc 2 (allPairs ()))) ()).map (fun r => r.2.log) =
            some [.free 100] := by
  constructor
  · exact ⟨pairList_holds, rfl, rfl⟩
  · refine ⟨_, ChainedHash.Run.snoc ChainedHash.Run.nil ?_ rfl, ?_⟩
    · exact ⟨fun _ => ⟨rfl, by decide⟩, fun h => absurd h (by decide)⟩
    · rfl

end MyLibs
