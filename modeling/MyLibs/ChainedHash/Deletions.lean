import MyLibs.Foundation.EditedWalk
import MyLibs.ChainedHash.Iteration
import MyLibs.ChainedHash.Walks

/-!
# Walks whose callback deletes

`my_hash_foreach` with a callback that calls `my_hash_iter_delete`, for the entry
it is called with and for others.
-/

namespace MyLibs
namespace ChainedHash

open Foundation

structure Deletions (hash : MyHash) where
  entries : List Ptr
  nodup : entries.Nodup
  present : forall p, p ∈ entries -> hash.heap p ≠ none

/-- A callback that only deletes. What it answers and what it deletes depend on
its own state, on the key and the value it is called with and on the table. -/
abbrev Deleter (τ : Type) := τ -> Ptr × Ptr -> (hash : MyHash) -> Nat × τ × Deletions hash

def deleteEach : List Ptr -> MyHash -> Option MyHash
  | [], hash => some hash
  | p :: rest, hash => do
      let hash <- myHashIterDelete hash p
      deleteEach rest hash

def Deleter.deletes {τ : Type} (act : Deleter τ) : τ -> Ptr × Ptr -> MyHash -> List Ptr :=
  fun own content hash => (act own content hash).2.2.entries

def Deleter.func {τ : Type} (act : Deleter τ) : MyHashFunc τ := fun own content hash =>
  (deleteEach (act.deletes own content hash) hash).map fun hash' =>
    ((act own content hash).1, (act own content hash).2.1, hash')

def recordedBuckets {τ ρ : Type} (func : MyHashFunc τ) (note : τ -> Ptr × Ptr -> MyHash -> ρ)
    (turns : Nat) : Nat -> Nat -> τ -> MyHash -> List (Turn Ptr ρ) × Option (τ × MyHash)
  | 0, _, _, _ => ([], none)
  | fuel + 1, idx, own, hash =>
      if idx < hash.size then
        match cursor.recorded func note turns (hash.buckets idx) own hash with
        | (first, none) => (first, none)
        | (first, some (ret, own, hash)) =>
            if ret ≠ 0 then
              (first, some (own, hash))
            else
              let rest := recordedBuckets func note turns fuel (idx + 1) own hash
              (first ++ rest.1, rest.2)
      else
        ([], some (own, hash))

def recordedForeach {τ ρ : Type} (turns : Nat) (hash : MyHash) (func : MyHashFunc τ)
    (note : τ -> Ptr × Ptr -> MyHash -> ρ) (own : τ) : List (Turn Ptr ρ) :=
  (recordedBuckets func note turns turns 0 own hash).1

variable {τ ρ : Type} {hash hash' start : MyHash} {chains chains' : Nat -> List Ptr}
  {p q : Ptr} {iter iter' : MyHashIter} {gone gone' : List Ptr}

theorem recordedBuckets_walk (func : MyHashFunc τ) (note : τ -> Ptr × Ptr -> MyHash -> ρ)
    (turns fuel idx : Nat) (own : τ) (hash : MyHash) :
    (recordedBuckets func note turns fuel idx own hash).2 =
      walkBuckets func turns fuel idx own hash := by
  induction fuel generalizing idx own hash with
  | zero => rfl
  | succ fuel ih =>
      rw [recordedBuckets, walkBuckets, walkChain_eq,
        ← Cursor.recorded_loop (C := cursor) func note turns (hash.buckets idx) own hash]
      split
      · cases cursor.recorded func note turns (hash.buckets idx) own hash with
        | mk first outcome =>
            cases outcome with
            | none => rfl
            | some result =>
                rcases result with ⟨ret, own₁, hash₁⟩
                simp only [Option.bind_eq_bind, Option.bind_some]
                split
                · rfl
                · exact ih ..
      · rfl

/-!
## A table without some of its entries
-/

theorem JoinedBy.congr (hsame : forall b, b < hash.size -> chains' b = chains b)
    (h : JoinedBy hash chains) : JoinedBy hash chains' where
  size_pos := h.size_pos
  linked := by
    refine ⟨h.linked.nil_none, ?_, ?_⟩
    · intro b hb
      rw [hsame b hb]
      exact h.linked.doubly b hb
    · intro b hb
      rw [hsame b hb]
      exact h.linked.atHome b hb
  mem_iff := by
    intro p
    rw [hsame _ (home_lt h.size_pos hash.heap p)]
    exact h.mem_iff p
  counted := h.counted
  address_lt := h.address_lt

def without (gone : List Ptr) (heap : Heap) : Heap :=
  fun p => if p ∈ gone then none else heap p

theorem without_of_not_mem {heap : Heap} (hp : p ∉ gone) : without gone heap p = heap p :=
  if_neg hp

/-- The entries of `gone` have left the table, and the others are as in `start`
and in the same order. -/
structure Pruned (start : MyHash) (chains : Nat -> List Ptr) (gone : List Ptr)
    (hash : MyHash) : Prop where
  joined : JoinedBy hash fun b => (chains b).filter fun p => p ∉ gone
  data : SameData (without gone start.heap) hash.heap
  size_eq : hash.size = start.size
  ops_eq : hash.ops = start.ops

theorem Pruned.congr (hgone : forall p, p ∈ gone' <-> p ∈ gone)
    (h : Pruned start chains gone hash) : Pruned start chains gone' hash where
  joined := h.joined.congr fun b _ => List.filter_congr fun p _ =>
    decide_eq_decide.mpr (not_congr (hgone p))
  data := by
    have hheap : without gone' start.heap = without gone start.heap := by
      funext p
      simp only [without, hgone]
    rw [hheap]
    exact h.data
  size_eq := h.size_eq
  ops_eq := h.ops_eq

theorem JoinedBy.pruned (h : JoinedBy start chains) : Pruned start chains [] start where
  joined := h.congr fun b _ => List.filter_eq_self.mpr fun p _ => by simp
  data := SameData.refl _
  size_eq := rfl
  ops_eq := rfl

theorem Pruned.exists_entry (h : Pruned start chains gone hash) (hp : start.heap p = some iter)
    (hgone : p ∉ gone) : exists entry, hash.heap p = some entry ∧ entry.bare = iter.bare := by
  apply h.data.exists_iter
  rw [without_of_not_mem hgone]
  exact hp

theorem Pruned.write (h : Pruned start chains gone hash) (hp : start.heap p = some iter)
    (hgone : p ∉ gone) {entry : MyHashIter} (hentry : hash.heap p = some entry)
    (f : MyHashIter -> MyHashIter) (hbare : (f entry).bare = (f iter).bare)
    (hnext : (f entry).next = entry.next) (hprev : (f entry).prev = entry.prev)
    (hhash : (f entry).keyHash = entry.keyHash) :
    Pruned { start with heap := Function.update start.heap p (some (f iter)) } chains gone
      { hash with heap := Function.update hash.heap p (some (f entry)) } where
  joined := h.joined.write hentry _ hnext hprev hhash
  data := by
    intro q
    cases eq_or_ne q p with
    | inl heq =>
        subst heq
        simp only [without, if_neg hgone, Function.update_self]
        exact congrArg some hbare
    | inr hne =>
        have hrest := h.data q
        simp only [without, Function.update_of_ne hne] at hrest ⊢
        exact hrest
  size_eq := h.size_eq
  ops_eq := h.ops_eq

theorem logged_eq (hash : MyHash) (set : Bool) (event : Event) :
    hash.logged set event = { hash with log := eventIf set event ++ hash.log } := by
  cases set with
  | false => rfl
  | true => rfl

theorem without_snoc (gone : List Ptr) (heap : Heap) (p : Ptr) :
    without (gone ++ [p]) heap = Function.update (without gone heap) p none := by
  funext q
  cases eq_or_ne q p with
  | inl heq => simp [without, heq]
  | inr hne => simp [without, hne]

theorem JoinedBy.filter_snoc (h : JoinedBy hash fun b => (chains b).filter fun q => q ∉ gone)
    (hgone : p ∉ gone) {b : Nat} (hb : b < hash.size) :
    ((chains b).filter fun q => q ∉ gone ++ [p]) =
      Function.update (fun b => (chains b).filter fun q => q ∉ gone)
        (home hash.heap hash.size p)
        (((chains (home hash.heap hash.size p)).filter fun q => q ∉ gone).erase p) b := by
  cases eq_or_ne b (home hash.heap hash.size p) with
  | inl heq =>
      have hnodup := (h.linked.doubly b hb).nodup h.linked.nil_none
      rw [← heq, Function.update_self, hnodup.erase_eq_filter, List.filter_filter]
      refine List.filter_congr fun q _ => Bool.eq_iff_iff.mpr ?_
      simp [and_comm]
  | inr hne =>
      rw [Function.update_of_ne hne]
      refine List.filter_congr fun q hq => decide_eq_decide.mpr ?_
      have hqp : q ≠ p := by
        intro heq
        subst heq
        have hmem : q ∈ (chains b).filter fun q => q ∉ gone := by simp [hq, hgone]
        exact hne (h.linked.atHome b hb q hmem).symm
      simp [hqp]

theorem Pruned.delete (h : Pruned start chains gone hash) (hp : start.heap p = some iter)
    (hflag : iter.foreach = 0) (hgone : p ∉ gone) :
    exists hash', myHashIterDelete hash p = some hash' ∧
      Pruned start chains (gone ++ [p]) hash' := by
  rcases h.exists_entry hp hgone with ⟨entry, hentry, hbare⟩
  have hfields := bare_eq_iff.mp hbare
  have hne : p ≠ NULL := ne_null_of_some h.joined.null_none hentry
  have hforeach : ¬entry.foreach ≠ 0 := not_not_intro (hfields.right.right.right.trans hflag)
  rcases h.joined.unlinkEntry_spec hentry
      (eventIf hash.ops.keyFree (.keyFree entry.key) ++
        (eventIf hash.ops.valueFree (.valueFree entry.value) ++ hash.log))
      { entry with value := NULL, key := NULL } rfl rfl rfl with
    ⟨hash', hunlink, hjoined, hdata, hops, hsize⟩
  refine ⟨hash', ?_, ?_, ?_, hsize.trans h.size_eq, hops.trans h.ops_eq⟩
  · rw [myHashIterDelete, if_neg hne, hentry]
    simp only [Option.bind_eq_bind, Option.bind_some, logged_eq, if_neg hforeach]
    exact hunlink
  · refine hjoined.congr fun b hb => ?_
    rw [hsize] at hb
    exact h.joined.filter_snoc hgone hb
  · rw [without_snoc]
    exact (h.data.update_same p none).trans hdata

theorem Pruned.deleteEach {entries : List Ptr} (h : Pruned start chains gone hash)
    (hnodup : entries.Nodup)
    (hentries : forall q, q ∈ entries ->
      q ∉ gone ∧ exists iter, start.heap q = some iter ∧ iter.foreach = 0) :
    exists hash', deleteEach entries hash = some hash' ∧
      Pruned start chains (gone ++ entries) hash' := by
  induction entries generalizing gone hash with
  | nil =>
      refine ⟨hash, rfl, ?_⟩
      rw [List.append_nil]
      exact h
  | cons p entries ih =>
      rcases List.nodup_cons.mp hnodup with ⟨hp, hrest⟩
      rcases hentries p (List.mem_cons_self ..) with ⟨hgone, iter, hiter, hflag⟩
      rcases h.delete hiter hflag hgone with ⟨hash₁, hdelete, hpruned⟩
      have hlater : forall q, q ∈ entries -> q ∉ gone ++ [p] ∧
          exists iter, start.heap q = some iter ∧ iter.foreach = 0 := by
        intro q hq
        rcases hentries q (List.mem_cons_of_mem p hq) with ⟨hqgone, hexists⟩
        refine ⟨?_, hexists⟩
        have hqp : q ≠ p := fun heq => hp (heq ▸ hq)
        simp [hqgone, hqp]
      rcases ih hpruned hrest hlater with ⟨hash', heach, hpruned'⟩
      refine ⟨hash', ?_, ?_⟩
      · rw [ChainedHash.deleteEach, hdelete]
        exact heach
      · rw [List.append_assoc] at hpruned'
        exact hpruned'

theorem Pruned.next_eq (h : Pruned start chains gone hash) {b : Nat} (hb : b < start.size)
    {first rest : List Ptr} (hsplit : chains b = first ++ p :: rest) (hgone : p ∉ gone) :
    exists entry, hash.heap p = some entry ∧
      entry.next = (rest.filter fun q => q ∉ gone).headD NULL := by
  have hdoubly := h.joined.linked.doubly b (h.size_eq ▸ hb)
  rw [hsplit, List.filter_append, List.filter_cons_of_pos (by simpa using hgone)] at hdoubly
  rcases exists_of_heapLinks hdoubly.links_at with ⟨entry, hentry, hnext, _⟩
  exact ⟨entry, hentry, hnext⟩

/-!
## One turn
-/

def MyHash.at (hash : MyHash) (p : Ptr) (iter : MyHashIter) : MyHash :=
  { hash with heap := Function.update hash.heap p (some iter) }

def MyHashIter.visited (iter : MyHashIter) : MyHashIter :=
  { iter with foreach := 1 }

theorem Pruned.arrive (h : Pruned start chains gone hash) (hp : start.heap p = some iter)
    (hgone : p ∉ gone) : exists hash', writeForeach hash p 1 = some hash' ∧
      Pruned (start.at p iter.visited) chains gone hash' := by
  rcases h.exists_entry hp hgone with ⟨entry, hentry, hbare⟩
  have hfields := bare_eq_iff.mp hbare
  refine ⟨_, ?_, h.write hp hgone hentry MyHashIter.visited ?_ rfl rfl rfl⟩
  · rw [writeForeach, writeIter_of_some hentry]
    rfl
  · exact bare_eq_iff.mpr ⟨hfields.left, hfields.right.left, hfields.right.right.left, rfl⟩

theorem Pruned.defer (h : Pruned start chains gone hash) (hp : start.heap p = some iter)
    (hflag : iter.foreach ≠ 0) (hgone : p ∉ gone) :
    exists hash', myHashIterDelete hash p = some hash' ∧
      Pruned (start.at p iter.cleared) chains gone hash' := by
  rcases h.exists_entry hp hgone with ⟨entry, hentry, hbare⟩
  have hfields := bare_eq_iff.mp hbare
  have hne : p ≠ NULL := ne_null_of_some h.joined.null_none hentry
  have hforeach : entry.foreach ≠ 0 := by
    rw [hfields.right.right.right]
    exact hflag
  have hwrite := h.write hp hgone hentry MyHashIter.cleared
    (bare_eq_iff.mpr ⟨rfl, rfl, hfields.right.right.left, rfl⟩) rfl rfl rfl
  refine ⟨{ hash with
    heap := Function.update hash.heap p (some entry.cleared)
    log := eventIf hash.ops.keyFree (.keyFree entry.key) ++
      (eventIf hash.ops.valueFree (.valueFree entry.value) ++ hash.log) }, ?_, ?_⟩
  · rw [myHashIterDelete, if_neg hne, hentry]
    simp only [Option.bind_eq_bind, Option.bind_some, logged_eq, if_pos hforeach]
    rfl
  · have hjoined := hwrite.joined
    exact ⟨⟨hjoined.size_pos, hjoined.linked, hjoined.mem_iff, hjoined.counted,
      hjoined.address_lt⟩, hwrite.data, hwrite.size_eq, hwrite.ops_eq⟩

theorem deleteEach_append (first rest : List Ptr) (hash : MyHash) :
    deleteEach (first ++ rest) hash = (deleteEach first hash).bind (deleteEach rest) := by
  induction first generalizing hash with
  | nil => rfl
  | cons p first ih =>
      rw [List.cons_append, deleteEach, deleteEach]
      cases myHashIterDelete hash p with
      | none => rfl
      | some hash₁ => exact ih hash₁

theorem at_of_ne (hash : MyHash) (iter : MyHashIter) (hne : q ≠ p) :
    (hash.at p iter).heap q = hash.heap q :=
  Function.update_of_ne hne ..

theorem at_self (hash : MyHash) (p : Ptr) (iter : MyHashIter) :
    (hash.at p iter).heap p = some iter :=
  Function.update_self ..

theorem at_at (hash : MyHash) (p : Ptr) (iter iter' : MyHashIter) :
    (hash.at p iter).at p iter' = hash.at p iter' := by
  simp only [MyHash.at, Function.update_idem]

theorem Pruned.others (h : Pruned (start.at p iter) chains gone hash)
    (hflags : forall q other, start.heap q = some other -> other.foreach = 0)
    (hpresent : hash.heap q ≠ none) (hne : q ≠ p) (other : MyHashIter) :
    q ∉ gone ∧ exists entry, (start.at p other).heap q = some entry ∧ entry.foreach = 0 := by
  rw [ne_eq, h.data.none_iff] at hpresent
  have hgone : q ∉ gone := fun hq => hpresent (if_pos hq)
  rw [without_of_not_mem hgone, at_of_ne start iter hne] at hpresent
  rcases Option.ne_none_iff_exists'.mp hpresent with ⟨entry, hentry⟩
  rw [at_of_ne start other hne]
  exact ⟨hgone, entry, hentry, hflags q entry hentry⟩

/-- What the callback does: the others leave the table at once, the current entry
does not. -/
theorem Pruned.call (h : Pruned (start.at p iter.visited) chains gone hash)
    (hflags : forall q other, start.heap q = some other -> other.foreach = 0)
    (hgone : p ∉ gone) (deletions : Deletions hash) :
    exists hash', ChainedHash.deleteEach deletions.entries hash = some hash' ∧
      Pruned (start.at p (if p ∈ deletions.entries then iter.cleared else iter.visited)) chains
        (gone ++ deletions.entries.erase p) hash' := by
  have hothers : forall q, q ∈ deletions.entries -> q ≠ p -> forall other, q ∉ gone ∧
      exists entry, (start.at p other).heap q = some entry ∧ entry.foreach = 0 :=
    fun q hq hne other => h.others hflags (deletions.present q hq) hne other
  by_cases hp : p ∈ deletions.entries
  · rw [if_pos hp]
    rcases List.append_of_mem hp with ⟨first, rest, hsplit⟩
    have hnodup := deletions.nodup
    rw [hsplit] at hnodup hothers ⊢
    rcases List.nodup_append.mp hnodup with ⟨hfirst, hrest, hdisjoint⟩
    rcases List.nodup_cons.mp hrest with ⟨hprest, hrest⟩
    have hpfirst : p ∉ first := fun hmem =>
      hdisjoint p hmem p (List.mem_cons_self ..) rfl
    have hfirstNe : forall q, q ∈ first -> q ≠ p := fun q hq heq => hpfirst (heq ▸ hq)
    have hrestNe : forall q, q ∈ rest -> q ≠ p := fun q hq heq => hprest (heq ▸ hq)
    rcases h.deleteEach hfirst fun q hq =>
        hothers q (List.mem_append_left _ hq) (hfirstNe q hq) iter.visited with
      ⟨hash₁, heach₁, hpruned₁⟩
    have hgone₁ : p ∉ gone ++ first := by simp [hgone, hpfirst]
    rcases hpruned₁.defer (at_self start p iter.visited) Nat.one_ne_zero hgone₁ with
      ⟨hash₂, hdelete, hpruned₂⟩
    rw [at_at] at hpruned₂
    have hlater : forall q, q ∈ rest -> q ∉ gone ++ first ∧
        exists entry, (start.at p iter.cleared).heap q = some entry ∧ entry.foreach = 0 := by
      intro q hq
      rcases hothers q (List.mem_append_right _ (List.mem_cons_of_mem p hq)) (hrestNe q hq)
        iter.cleared with ⟨hqgone, hexists⟩
      have hqfirst : q ∉ first := fun hmem =>
        hdisjoint q hmem q (List.mem_cons_of_mem p hq) rfl
      exact ⟨by simp [hqgone, hqfirst], hexists⟩
    rcases hpruned₂.deleteEach hrest hlater with ⟨hash', heach, hpruned⟩
    refine ⟨hash', ?_, ?_⟩
    · rw [deleteEach_append, heach₁, Option.bind_some, ChainedHash.deleteEach, hdelete]
      exact heach
    · rw [List.erase_append_right _ hpfirst, List.erase_cons_head, ← List.append_assoc]
      exact hpruned
  · rw [if_neg hp, List.erase_of_not_mem hp]
    exact h.deleteEach deletions.nodup fun q hq =>
      hothers q hq (fun heq => hp (heq ▸ hq)) iter.visited

theorem Pruned.unmark (h : Pruned (start.at p iter) chains gone hash) (hgone : p ∈ gone) :
    Pruned start chains gone hash where
  joined := h.joined
  data := by
    have hheap : without gone (start.at p iter).heap = without gone start.heap := by
      funext q
      cases eq_or_ne q p with
      | inl heq => simp only [without, heq, if_pos hgone]
      | inr hne => simp only [without, at_of_ne start iter hne]
    rw [← hheap]
    exact h.data
  size_eq := h.size_eq
  ops_eq := h.ops_eq

theorem at_eq_self (hp : start.heap p = some iter) : start.at p iter = start := by
  rw [MyHash.at, ← hp, Function.update_eq_self]

theorem Pruned.leave_deleted (h : Pruned (start.at p iter.cleared) chains gone hash)
    {entry : MyHashIter} (hentry : hash.heap p = some entry) (hgone : p ∉ gone) :
    exists hash', leaveIter p hash = some (entry.next, hash') ∧
      Pruned start chains (gone ++ [p]) hash' := by
  rcases h.delete (at_self start p iter.cleared) rfl hgone with ⟨hash', hdelete, hpruned⟩
  rcases h.exists_entry (at_self start p iter.cleared) hgone with ⟨other, hother, hbare⟩
  rw [hentry] at hother
  cases hother
  have hforeach : entry.foreach = 0 := (bare_eq_iff.mp hbare).right.right.right
  refine ⟨hash', ?_, hpruned.unmark (by simp)⟩
  rw [leaveIter, hentry]
  simp only [Option.bind_eq_bind, Option.bind_some, if_pos hforeach, hdelete, Option.map_some]

theorem Pruned.leave_kept (h : Pruned (start.at p iter.visited) chains gone hash)
    (hp : start.heap p = some iter) (hflag : iter.foreach = 0)
    {entry : MyHashIter} (hentry : hash.heap p = some entry) (hgone : p ∉ gone) :
    exists hash', leaveIter p hash = some (entry.next, hash') ∧
      Pruned start chains gone hash' := by
  rcases h.exists_entry (at_self start p iter.visited) hgone with ⟨other, hother, hbare⟩
  rw [hentry] at hother
  cases hother
  have hfields := bare_eq_iff.mp hbare
  have hforeach : entry.foreach ≠ 0 := by
    rw [hfields.right.right.right]
    exact Nat.one_ne_zero
  have hreset : ({ iter.visited with foreach := 0 } : MyHashIter) = iter := by
    rw [← hflag]
    rfl
  have hwrite := h.write (at_self start p iter.visited) hgone hentry
    (fun other => { other with foreach := 0 })
    (bare_eq_iff.mpr ⟨hfields.left, hfields.right.left, hfields.right.right.left, rfl⟩) rfl rfl rfl
  have hbase : ({ start.at p iter.visited with
      heap := Function.update (start.at p iter.visited).heap p
        (some { iter.visited with foreach := 0 }) } : MyHash) = start := by
    rw [hreset]
    exact (at_at start p iter.visited iter).trans (at_eq_self hp)
  rw [hbase] at hwrite
  refine ⟨_, ?_, hwrite⟩
  rw [leaveIter, hentry]
  simp only [Option.bind_eq_bind, Option.bind_some, if_neg hforeach, writeForeach,
    writeIter_of_some hentry, Option.map_some]

theorem Pruned.leave {entries first rest : List Ptr} {b : Nat}
    (h : Pruned (start.at p (if p ∈ entries then iter.cleared else iter.visited)) chains
      (gone ++ entries.erase p) hash)
    (hp : start.heap p = some iter) (hflag : iter.foreach = 0) (hnodup : entries.Nodup)
    (hgone : p ∉ gone) (hb : b < start.size) (hsplit : chains b = first ++ p :: rest)
    (hrest : p ∉ rest) :
    exists hash', leaveIter p hash =
        some ((rest.filter fun q => q ∉ gone ++ entries).headD NULL, hash') ∧
      Pruned start chains (gone ++ entries) hash' := by
  have hpgone : p ∉ gone ++ entries.erase p := by simp [hgone, hnodup.not_mem_erase]
  rcases h.next_eq hb hsplit hpgone with ⟨entry, hentry, hnext⟩
  have hsame : (rest.filter fun q => q ∉ gone ++ entries.erase p) =
      rest.filter fun q => q ∉ gone ++ entries := by
    refine List.filter_congr fun q hq => decide_eq_decide.mpr ?_
    have hqp : q ≠ p := fun heq => hrest (heq ▸ hq)
    simp [List.mem_erase_of_ne hqp]
  rw [hsame] at hnext
  rw [← hnext]
  by_cases hmem : p ∈ entries
  · rw [if_pos hmem] at h
    rcases h.leave_deleted hentry hpgone with ⟨hash', hleave, hpruned⟩
    refine ⟨hash', hleave, hpruned.congr fun q => ?_⟩
    cases eq_or_ne q p with
    | inl heq => simp [heq, hmem]
    | inr hne => simp [List.mem_erase_of_ne hne, hne]
  · rw [if_neg hmem] at h
    rw [List.erase_of_not_mem hmem] at h hpgone
    exact h.leave_kept hp hflag hentry hpgone

/-- One turn of the walk: the successor it goes to is the next entry of the chain
that has not been deleted. -/
theorem Pruned.turn (h : Pruned start chains gone hash) (hstart : JoinedBy start chains)
    (hflags : forall q other, start.heap q = some other -> other.foreach = 0)
    {first rest : List Ptr} {b : Nat} (hb : b < start.size)
    (hsplit : chains b = first ++ p :: rest) (hgone : p ∉ gone) (act : Deleter τ) (own : τ) :
    exists deleted ret own' hash', cursor.noted act.deletes p own hash = some deleted ∧
      cursor.turn act.func p own hash = some (ret,
        (rest.filter fun q => q ∉ gone ++ deleted).headD NULL, own', hash') ∧
      Pruned start chains (gone ++ deleted) hash' := by
  have hdoubly := hstart.linked.doubly b hb
  have hnodup := hdoubly.nodup hstart.linked.nil_none
  rw [hsplit] at hdoubly hnodup
  rcases exists_of_heapLinks hdoubly.links_at with ⟨iter, hp, _⟩
  have hrest : p ∉ rest := (List.nodup_cons.mp (List.nodup_append.mp hnodup).right.left).left
  rcases h.arrive hp hgone with ⟨hash₁, harrive, hpruned₁⟩
  rcases hpruned₁.exists_entry (at_self start p iter.visited) hgone with ⟨entry, hentry, _⟩
  rcases hpruned₁.call hflags hgone (act own (entry.key, entry.value) hash₁).2.2 with
    ⟨hash₂, hcall, hpruned₂⟩
  rcases hpruned₂.leave hp (hflags p iter hp) (Deletions.nodup _) hgone hb hsplit hrest with
    ⟨hash', hleave, hpruned'⟩
  refine ⟨act.deletes own (entry.key, entry.value) hash₁,
    (act own (entry.key, entry.value) hash₁).1, (act own (entry.key, entry.value) hash₁).2.1,
    hash', ?_, ?_, hpruned'⟩
  · simp [Cursor.noted, cursor, harrive, hentry]
  · have hfunc : act.func own (entry.key, entry.value) hash₁ =
        some ((act own (entry.key, entry.value) hash₁).1,
          (act own (entry.key, entry.value) hash₁).2.1, hash₂) := by
      rw [Deleter.func, Deleter.deletes, hcall]
      rfl
    simp only [Cursor.turn, cursor, harrive, hentry, Option.bind_eq_bind, Option.bind_some,
      Option.map_some, hfunc, hleave]
    rfl

/-!
## The whole walk
-/

def NoneNew : List Ptr -> Ptr -> Prop :=
  fun _ _ => False

def Ahead (start : MyHash) (chains : Nat -> List Ptr) (idx : Nat)
    (seen : List (Turn Ptr (List Ptr))) (ahead : List Ptr) (hash : MyHash) : Prop :=
  Pruned start chains (deletedIn id seen) hash ∧
    exists first rest, chains idx = first ++ rest ∧
      ahead = rest.filter fun p => p ∉ deletedIn id seen

variable {idx : Nat} {seen : List (Turn Ptr (List Ptr))} {order : List Ptr}

theorem ahead_keeps (hstart : JoinedBy start chains)
    (hflags : forall q other, start.heap q = some other -> other.foreach = 0)
    (hidx : idx < start.size) (horder : forall p, p ∈ chains idx -> p ∈ order) (act : Deleter τ) :
    Cursor.Keeps cursor act.func act.deletes id (fun _ => 0) NoneNew order
      (Ahead start chains idx) where
  ne_nil := by
    intro seen p ahead hash h
    rcases h with ⟨_, first, rest, hsplit, hahead⟩
    have hp : p ∈ rest := List.mem_of_mem_filter (hahead ▸ List.mem_cons_self ..)
    apply hstart.linked.ne_nil hidx
    rw [hsplit]
    exact List.mem_append_right _ hp
  new := by
    intro seen p ahead hash h hnew
    rcases h with ⟨_, first, rest, hsplit, hahead⟩
    have hp : p ∈ rest.filter fun p => p ∉ deletedIn id seen := hahead ▸ List.mem_cons_self ..
    rw [List.mem_filter, decide_eq_true_eq] at hp
    refine hnew ⟨horder p ?_, hp.right⟩
    rw [hsplit]
    exact List.mem_append_right _ hp.left
  turn := by
    intro seen p ahead hash h own
    rcases h with ⟨hpruned, first, rest, hsplit, hahead⟩
    rcases List.filter_eq_cons_iff.mp hahead.symm with ⟨passed, later, hrest, _, hp, hlater⟩
    have hgone : p ∉ deletedIn id seen := of_decide_eq_true hp
    have hsplit' : chains idx = (first ++ passed) ++ p :: later := by
      rw [hsplit, hrest, List.append_assoc]
    rcases hpruned.turn hstart hflags hidx hsplit' hgone act own with
      ⟨deleted, ret, own', hash', hnoted, hturn, hpruned'⟩
    have hahead' := Cursor.filter_gone (deletedIn id seen) deleted later
    rw [hlater] at hahead'
    refine ⟨deleted, ret, own', hash', _, hnoted, hturn, ?_, ?_, ?_⟩
    · rw [Ahead, deletedIn_snoc]
      exact ⟨hpruned', first ++ passed ++ [p], later, by rw [hsplit', List.append_cons], rfl⟩
    · rw [hahead']
      exact List.length_filter_le ..
    · rw [hahead']
      exact Cursor.left_filter order ahead fun q hq => List.mem_append_right _ hq

theorem Pruned.bucket (hstart : JoinedBy start chains)
    (hflags : forall q other, start.heap q = some other -> other.foreach = 0)
    (act : Deleter τ) {turns count : Nat} (hidx : idx < start.size)
    (hturns : (chains idx).length < turns) (horder : forall p, p ∈ chains idx -> p ∈ order)
    (h : Pruned start chains (deletedIn id seen) hash) (own : τ) :
    exists visits ret own' hash',
      cursor.recorded act.func act.deletes turns (hash.buckets idx) own hash =
        (visits, some (ret, own', hash')) ∧
      Pruned start chains (deletedIn id (seen ++ visits)) hash' ∧
      forall more,
        (if ret = 0 then
          Proceeds id NoneNew (deletedIn id (seen ++ visits))
            (Cursor.left order (deletedIn id (seen ++ visits))
              (entriesFrom chains (idx + 1) count)) more
        else more = []) ->
        Proceeds id NoneNew (deletedIn id seen)
          (Cursor.left order (deletedIn id seen) (entriesFrom chains idx (count + 1)))
          (visits ++ more) := by
  have hbegin : hash.buckets idx =
      ((chains idx).filter fun p => p ∉ deletedIn id seen).headD cursor.nil :=
    (h.joined.linked.doubly idx (h.size_eq ▸ hidx)).start_eq
  have hahead : Ahead start chains idx seen
      ((chains idx).filter fun p => p ∉ deletedIn id seen) hash := ⟨h, [], chains idx, rfl, rfl⟩
  have hshort : ((chains idx).filter fun p => p ∉ deletedIn id seen).length + 0 < turns :=
    Nat.lt_of_le_of_lt (List.length_filter_le ..) hturns
  rw [hbegin]
  rcases (ahead_keeps hstart hflags hidx horder act).run hahead
      (fun n => by simp [insertedIn]) hshort with
    ⟨visits, ret, own', hash', ahead', hrecord, ⟨hpruned, _⟩, _, hproceeds⟩
  refine ⟨visits, ret, own', hash', hrecord, hpruned, ?_⟩
  have hlater := hproceeds (entriesFrom chains (idx + 1) count)
  rw [Cursor.left_append, Cursor.left_filter order (chains idx) (fun _ hq => hq),
    ← Cursor.left_append, ← entriesFrom_succ] at hlater
  exact hlater

theorem Pruned.buckets (hstart : JoinedBy start chains)
    (hflags : forall q other, start.heap q = some other -> other.foreach = 0)
    (act : Deleter τ) {turns count fuel : Nat}
    (hturns : forall b, b < start.size -> (chains b).length < turns)
    (horder : forall b, b < start.size -> forall p, p ∈ chains b -> p ∈ order)
    (h : Pruned start chains (deletedIn id seen) hash) (hsize : idx + count = start.size)
    (hfuel : count < fuel) (own : τ) :
    exists visits own' hash',
      recordedBuckets act.func act.deletes turns fuel idx own hash = (visits, some (own', hash')) ∧
      Pruned start chains (deletedIn id (seen ++ visits)) hash' ∧
      Proceeds id NoneNew (deletedIn id seen)
        (Cursor.left order (deletedIn id seen) (entriesFrom chains idx count)) visits := by
  induction count generalizing idx fuel seen own hash with
  | zero =>
      cases fuel with
      | zero => cases hfuel
      | succ fuel =>
          have hend : ¬idx < hash.size := by
            rw [h.size_eq]
            omega
          refine ⟨[], own, hash, ?_, ?_, rfl⟩
          · rw [recordedBuckets, if_neg hend]
          · rw [List.append_nil]
            exact h
  | succ count ih =>
      cases fuel with
      | zero => cases hfuel
      | succ fuel =>
          have hidx : idx < start.size := by omega
          have hidx' : idx < hash.size := h.size_eq ▸ hidx
          rcases h.bucket hstart hflags act hidx (hturns idx hidx) (horder idx hidx) own with
            ⟨first, ret, own₁, hash₁, hrecord, hpruned₁, hproceeds⟩
          rw [recordedBuckets, if_pos hidx', hrecord]
          by_cases hret : ret = 0
          · have hrestSize : idx + 1 + count = start.size := by omega
            rcases ih hpruned₁ hrestSize (Nat.lt_of_succ_lt_succ hfuel) own₁ with
              ⟨visits, own', hash', hrest, hpruned', hlater⟩
            refine ⟨first ++ visits, own', hash', ?_, ?_, hproceeds visits ?_⟩
            · simp only [hret, ne_eq, not_true_eq_false, if_false, hrest]
            · rw [← List.append_assoc]
              exact hpruned'
            · rw [if_pos hret]
              exact hlater
          · refine ⟨first ++ [], own₁, hash₁, ?_, ?_, hproceeds [] ?_⟩
            · simp only [ne_eq, hret, not_false_eq_true, if_true, List.append_nil]
            · rw [List.append_nil]
              exact hpruned₁
            · rw [if_neg hret]

/-!
## The entries of a table
-/

theorem JoinedBy.mem_entries (h : JoinedBy hash chains) (p : Ptr) :
    p ∈ entriesFrom chains 0 hash.size <-> hash.heap p ≠ none := by
  rw [entriesFrom, List.mem_flatMap, ← h.mem_iff]
  constructor
  · intro hmem
    rcases hmem with ⟨b, hb, hp⟩
    have hlt : b < hash.size := by
      rw [List.mem_range'_1] at hb
      omega
    rw [h.linked.atHome b hlt p hp]
    exact hp
  · intro hp
    refine ⟨home hash.heap hash.size p, ?_, hp⟩
    have hlt := home_lt h.size_pos hash.heap p
    rw [List.mem_range'_1]
    omega

theorem JoinedBy.entries_nodup (h : JoinedBy hash chains) :
    (entriesFrom chains 0 hash.size).Nodup := by
  have hlt : forall b, b ∈ List.range' 0 hash.size -> b < hash.size := by
    intro b hb
    rw [List.mem_range'_1] at hb
    omega
  rw [entriesFrom, List.nodup_flatMap]
  constructor
  · exact fun b hb => (h.linked.doubly b (hlt b hb)).nodup h.linked.nil_none
  · have hrange : (List.range' 0 hash.size).Nodup := List.nodup_range'
    refine List.Pairwise.imp_of_mem ?_ hrange
    intro b c hb hc hne p hpb hpc
    exact hne (h.linked.bucket_unique (hlt b hb) (hlt c hc) hpb hpc)

theorem JoinedBy.entries_length (h : JoinedBy hash chains) :
    (entriesFrom chains 0 hash.size).length = hash.num := by
  rcases h.counted with ⟨entries, hentries, hnum⟩
  have hsame : (entriesFrom chains 0 hash.size).toFinset = entries := by
    ext p
    rw [List.mem_toFinset, h.mem_entries, hentries]
  rw [hnum, ← hsame, List.toFinset_card_of_nodup h.entries_nodup]

theorem JoinedBy.mem_entries_of_mem (h : JoinedBy hash chains) {b : Nat} (hb : b < hash.size)
    (hp : p ∈ chains b) : p ∈ entriesFrom chains 0 hash.size := by
  rw [h.mem_entries, ← h.mem_iff, h.linked.atHome b hb p hp]
  exact hp

theorem JoinedBy.length_le (h : JoinedBy hash chains) {b : Nat} (hb : b < hash.size) :
    (chains b).length <= hash.num := by
  rw [← h.entries_length,
    ← List.toFinset_card_of_nodup ((h.linked.doubly b hb).nodup h.linked.nil_none),
    ← List.toFinset_card_of_nodup h.entries_nodup]
  exact Finset.card_le_card fun p hp =>
    List.mem_toFinset.mpr (h.mem_entries_of_mem hb (List.mem_toFinset.mp hp))

/-- The walk `visits` has been over the entries of `order`: the table is as
before without those deleted. -/
structure WalkedOver (hash : MyHash) (order : List Ptr) (visits : List (Turn Ptr (List Ptr)))
    (hash' : MyHash) : Prop where
  proceeds : Proceeds id NoneNew [] order visits
  data : SameData (without (deletedIn id visits) hash.heap) hash'.heap
  chained : Chained hash'
  size_eq : hash'.size = hash.size
  ops_eq : hash'.ops = hash.ops

theorem Pruned.walkedOver {visits : List (Turn Ptr (List Ptr))}
    (h : Pruned start chains (deletedIn id visits) hash)
    (hflags : forall q other, start.heap q = some other -> other.foreach = 0)
    (hproceeds : Proceeds id NoneNew [] order visits) : WalkedOver start order visits hash where
  proceeds := hproceeds
  data := h.data
  chained := by
    refine h.joined.joined.chained fun p iter hp => h.data.foreach_eq (fun q other hq => ?_) hp
    by_cases hgone : q ∈ deletedIn id visits
    · rw [without, if_pos hgone] at hq
      cases hq
    · rw [without_of_not_mem hgone] at hq
      exact hflags q other hq
  size_eq := h.size_eq
  ops_eq := h.ops_eq

theorem JoinedBy.foreach (h : JoinedBy hash chains)
    (hflags : forall q other, hash.heap q = some other -> other.foreach = 0) (act : Deleter τ)
    {turns : Nat} (hnum : hash.num < turns) (hsize : hash.size < turns) (own : τ) :
    exists own' hash', myHashForeach turns hash (some act.func) own = some (own', hash') ∧
      WalkedOver hash (entriesFrom chains 0 hash.size)
        (recordedForeach turns hash act.func act.deletes own) hash' := by
  have hturns : forall b, b < hash.size -> (chains b).length < turns :=
    fun b hb => Nat.lt_of_le_of_lt (h.length_le hb) hnum
  have hpruned : Pruned hash chains (deletedIn id []) hash := h.pruned
  have hall : 0 + hash.size = hash.size := Nat.zero_add _
  rcases hpruned.buckets h hflags act hturns (fun b hb p => h.mem_entries_of_mem hb) hall
    hsize own with
    ⟨visits, own', hash', hrecord, hpruned', hproceeds⟩
  have hwalk := recordedBuckets_walk act.func act.deletes turns turns 0 own hash
  rw [hrecord] at hwalk
  refine ⟨own', hash', hwalk.symm, ?_⟩
  rw [recordedForeach, hrecord]
  refine hpruned'.walkedOver hflags ?_
  have hleft : Cursor.left (entriesFrom chains 0 hash.size) [] (entriesFrom chains 0 hash.size) =
      entriesFrom chains 0 hash.size := List.filter_eq_self.mpr fun p hp => by simp [hp]
  rw [show deletedIn id ([] : List (Turn Ptr (List Ptr))) = [] from rfl, hleft] at hproceeds
  exact hproceeds

/-- There is an order of the entries in which every walk with a callback that
deletes visits those that are still there, and which it leaves as it should. -/
def ToleratesDeletion (hash : MyHash) : Prop :=
  exists order : List Ptr, order.Nodup ∧ (forall p, p ∈ order <-> hash.heap p ≠ none) ∧
    forall (τ : Type) (act : Deleter τ) (own : τ) (turns : Nat),
      hash.num < turns -> hash.size < turns ->
      exists own' hash', myHashForeach turns hash (some act.func) own = some (own', hash') ∧
        WalkedOver hash order (recordedForeach turns hash act.func act.deletes own) hash'

variable {HASH_GROW_STEP size : Nat} {ops : MyHashOps} {made : List Ptr}

/-- `my_hash_foreach` tolerates deletion by its callback: every entry that is not
deleted before its turn is visited once, until the callback stops the walk, and
the table is left with exactly the entries that were not deleted. -/
theorem hash_foreach_tolerates_deletion
    (hrun : Lifetime HASH_GROW_STEP (myHashInit size ops) made hash) : ToleratesDeletion hash := by
  have hchained := hrun.chained
  rcases hchained.joined.exists_by with ⟨chains, hby⟩
  exact ⟨entriesFrom chains 0 hash.size, hby.entries_nodup, hby.mem_entries,
    fun τ act own turns hnum hsize => hby.foreach hchained.foreach_eq act hnum hsize own⟩

/-- Four keys are added to a table with one bucket, which grows on the way, and one is
deleted: 8 is left in the first of two buckets, 5 and 7 in the second. -/
def grownTable : MyHash :=
  [plainAdd 5 100, plainAdd 6 101, plainAdd 7 102, plainAdd 8 103, .delete 6].foldl
    (fun hash call => ((call.apply 2 hash).map Prod.snd).getD hash) (myHashInit 1 addressOps)

theorem grownTable_lifetime :
    Lifetime 2 (myHashInit 1 addressOps) [100, 101, 102, 103] grownTable := by
  have hthree := (((emptyTable_lifetime 1).plainAdd 5 100 (by decide) ⟨rfl, by decide⟩
    (by decide) rfl).plainAdd 6 101 (by decide) ⟨rfl, by decide⟩ (by decide) rfl).plainAdd 7 102
    (by decide) ⟨rfl, by decide⟩ (by decide) rfl
  have hfour := hthree.plainAdd 8 103 (by decide) ⟨rfl, by decide⟩ (by decide) rfl
  exact hfour.plainDelete 6 (by decide) rfl

/-- Deletes its own entry, that of 8, and the first of the bucket behind. Counts its
calls. -/
def sweep : Deleter Nat := fun own content hash =>
  if content.1 = 8 then
    (0, own + 1, {
      entries := [103, 100].filter fun p => (hash.heap p).isSome
      nodup := List.Nodup.filter _ (by decide)
      present := fun p hp => Option.isSome_iff_ne_none.mp (List.mem_filter.mp hp).right })
  else
    (0, own + 1, ⟨[], List.nodup_nil, fun p hp => by cases hp⟩)

theorem hash_foreach_tolerates_deletion_sweep : exists order hash',
    (forall p, p ∈ order <-> grownTable.heap p ≠ none) ∧
      myHashForeach 4 grownTable (some sweep.func) 0 = some (2, hash') ∧
      WalkedOver grownTable order [⟨103, [103, 100], 0⟩, ⟨102, [], 0⟩] hash' := by
  rcases hash_foreach_tolerates_deletion grownTable_lifetime with ⟨order, _, hmem, hwalks⟩
  rcases hwalks Nat sweep 0 4 (by decide) (by decide) with ⟨own', hash', hwalk, hover⟩
  have hcalls : (myHashForeach 4 grownTable (some sweep.func) 0).map Prod.fst = some 2 := rfl
  rw [hwalk] at hcalls
  cases hcalls
  exact ⟨order, hash', hmem, hwalk, hover⟩

end ChainedHash
end MyLibs
