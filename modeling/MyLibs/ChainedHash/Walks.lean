import MyLibs.Foundation.NestedWalk
import MyLibs.ChainedHash.Insertion

/-!
# Walks over a table

`my_hash_foreach` as a walk of flagged entries, bucket after bucket.
-/

namespace MyLibs
namespace ChainedHash

open Foundation

variable {τ : Type} {hash hash' : MyHash} {heap heap' : Heap} {p q : Ptr} {iter : MyHashIter}
  {active : List Ptr}

/-!
## Flags
-/

def Flagged (heap : Heap) (p : Ptr) : Prop :=
  exists iter, heap p = some iter ∧ iter.foreach ≠ 0

def flags : Flags Ptr MyHash where
  flagged := fun hash p => Flagged hash.heap p
  freed := fun hash => hash.log.length

theorem Flagged.congr (hdata : SameData heap heap') (h : Flagged heap p) : Flagged heap' p := by
  rcases h with ⟨iter, hp, hflag⟩
  rcases hdata.exists_iter hp with ⟨iter', hp', hbare⟩
  rw [← (bare_eq_iff.mp hbare).right.right.right] at hflag
  exact ⟨iter', hp', hflag⟩

theorem flagged_of_update {new : Option MyHashIter} (hne : q ≠ p)
    (h : Flagged (Function.update heap p new) q) : Flagged heap q := by
  rcases h with ⟨iter, hiter, hflag⟩
  rw [Function.update_of_ne hne] at hiter
  exact ⟨iter, hiter, hflag⟩

def MyHash.marked (hash : MyHash) (active : List Ptr) : MyHash :=
  { hash with heap := fun p => (hash.heap p).map fun iter =>
      if p ∈ active then { iter with foreach := 1 } else iter }

theorem marked_nil : hash.marked [] = hash := by
  simp [MyHash.marked]

theorem marked_heap (hp : hash.heap p = some iter) : (hash.marked active).heap p =
    some (if p ∈ active then { iter with foreach := 1 } else iter) := by
  simp [MyHash.marked, hp]

theorem writeForeach_marked {flag : Nat} {active' : List Ptr} (hp : hash.heap p = some iter)
    (hself : (if p ∈ active' then { iter with foreach := 1 } else iter) =
      { iter with foreach := flag })
    (hrest : forall q, q ≠ p -> (q ∈ active <-> q ∈ active')) :
    writeForeach (hash.marked active) p flag = some (hash.marked active') := by
  rw [writeForeach, writeIter_of_some (marked_heap hp)]
  have hflag : ({ (if p ∈ active then { iter with foreach := 1 } else iter) with
      foreach := flag } : MyHashIter) = { iter with foreach := flag } := by
    split <;> rfl
  have hheap : Function.update (hash.marked active).heap p
      (some { iter with foreach := flag }) = (hash.marked active').heap := by
    funext q
    by_cases hq : q = p
    · rw [hq, Function.update_self, marked_heap hp, hself]
    · rw [Function.update_of_ne hq]
      simp only [MyHash.marked, hrest q hq]
  rw [hflag, hheap]
  rfl

/-!
## One entry of a walk
-/

def cursor : Cursor Ptr (Ptr × Ptr) MyHash where
  nil := NULL
  arrive := fun p hash => writeForeach hash p 1
  content := fun p hash => (hash.heap p).map fun iter => (iter.key, iter.value)
  leave := leaveIter

theorem writeForeach_eq_some {flag : Nat} (h : writeForeach hash p flag = some hash') :
    exists iter, hash.heap p = some iter ∧ hash' =
      { hash with heap := Function.update hash.heap p (some { iter with foreach := flag }) } := by
  rcases Option.map_eq_some_iff.mp h with ⟨heap, hwrite, hhash⟩
  rcases Option.map_eq_some_iff.mp hwrite with ⟨iter, hiter, hheap⟩
  subst hheap
  exact ⟨iter, hiter, hhash.symm⟩

theorem leaveIter_eq_some (h : leaveIter p hash = some (q, hash')) :
    exists iter, hash.heap p = some iter ∧ q = iter.next ∧
      (iter.foreach = 0 ∧ myHashIterDelete hash p = some hash' ∨
        iter.foreach ≠ 0 ∧ writeForeach hash p 0 = some hash') := by
  simp only [leaveIter, Option.bind_eq_bind, Option.bind_eq_some_iff] at h
  rcases h with ⟨iter, hiter, hleave⟩
  split at hleave
  · rename_i hflag
    rcases Option.map_eq_some_iff.mp hleave with ⟨hash₁, hdelete, hpair⟩
    cases hpair
    exact ⟨iter, hiter, rfl, Or.inl ⟨hflag, hdelete⟩⟩
  · rename_i hflag
    rcases Option.map_eq_some_iff.mp hleave with ⟨hash₁, hwrite, hpair⟩
    cases hpair
    exact ⟨iter, hiter, rfl, Or.inr ⟨hflag, hwrite⟩⟩

theorem leaveIter_unflags (hp : p ≠ NULL) (h : leaveIter p hash = some (q, hash')) :
    (¬Flagged hash'.heap p ∧ forall q, Flagged hash'.heap q -> Flagged hash.heap q) ∧
      (Flagged hash.heap p ∧ hash'.log = hash.log ∨ hash.log.length < hash'.log.length) := by
  have hothers : ¬Flagged hash'.heap p ->
      (forall q, q ≠ p -> Flagged hash'.heap q -> Flagged hash.heap q) ->
      (¬Flagged hash'.heap p ∧ forall q, Flagged hash'.heap q -> Flagged hash.heap q) := by
    intro hself hrest
    refine ⟨hself, fun q hq => hrest q ?_ hq⟩
    intro heq
    rw [heq] at hq
    exact hself hq
  rcases leaveIter_eq_some h with ⟨iter, hiter, _, ⟨hflag, hdelete⟩ | ⟨hflag, hwrite⟩⟩
  · rcases myHashIterDelete_freed hp hiter hflag hdelete with ⟨hdata, hlog⟩
    constructor
    · apply hothers
      · intro hself
        rcases hself.congr hdata.symm with ⟨other, hother, _⟩
        rw [Function.update_self] at hother
        cases hother
      · intro q hne hq
        exact flagged_of_update hne (hq.congr hdata.symm)
    · exact Or.inr hlog
  · rcases writeForeach_eq_some hwrite with ⟨other, hother, hhash⟩
    subst hhash
    constructor
    · apply hothers
      · intro hself
        rcases hself with ⟨entry, hentry, hflagged⟩
        simp only [Function.update_self, Option.some.injEq] at hentry
        exact hflagged (hentry ▸ rfl)
      · exact fun q hne hq => flagged_of_update hne hq
    · exact Or.inl ⟨⟨iter, hiter, hflag⟩, rfl⟩

theorem cursor_lawful : cursor.Lawful flags where
  arrive_freed := by
    intro p hash hash' h
    rcases writeForeach_eq_some h with ⟨iter, _, hhash⟩
    rw [hhash]
    rfl
  arrive_flagged := by
    intro p hash hash' h q hne hq
    rcases writeForeach_eq_some h with ⟨iter, _, hhash⟩
    rw [hhash] at hq
    exact flagged_of_update hne hq
  leave_worse := by
    intro p hash q hash' hp h
    rcases leaveIter_unflags hp h with ⟨hflags, hlog⟩
    constructor
    · rcases hlog with ⟨_, hlog⟩ | hlog
      · exact Nat.le_of_eq (congrArg List.length hlog.symm)
      · exact Nat.le_of_lt hlog
    · exact hflags.right
  leave_unflagged := by
    intro p hash q hash' hp h
    exact (leaveIter_unflags hp h).left.left
  leave_freed := by
    intro p hash q hash' hp h hflag
    rcases (leaveIter_unflags hp h).right with ⟨hflagged, _⟩ | hlog
    · exact absurd hflagged hflag
    · exact hlog

theorem walkChain_eq (func : MyHashFunc τ) (turns : Nat) (p : Ptr) (own : τ) (hash : MyHash) :
    walkChain func turns p own hash = cursor.loop func turns p own hash := by
  induction turns generalizing p own hash with
  | zero => rfl
  | succ turns ih =>
      by_cases hp : p = NULL
      · rw [walkChain, if_pos hp, Cursor.loop, if_pos (show p = cursor.nil from hp)]
      · rw [walkChain, if_neg hp, Cursor.loop_succ (show p ≠ cursor.nil from hp), Cursor.turn]
        cases hwrite : writeForeach hash p 1 with
        | none => simp [cursor, hwrite]
        | some hash₁ =>
            cases hiter : hash₁.heap p with
            | none => simp [cursor, hwrite, hiter]
            | some iter =>
                simp only [cursor, hwrite, hiter, Option.bind_eq_bind, Option.bind_some,
                  Option.bind_assoc, Option.map_some]
                congr 1
                funext called
                congr 1
                funext left
                split
                · rfl
                · exact ih ..

/-!
## The entries of a table
-/

/-- The chains of a table, all entries of which are unflagged. -/
structure Threaded (hash : MyHash) (chains : Nat -> List Ptr) : Prop where
  linked : Linked hash.heap hash.buckets hash.size chains
  length_le : forall b, b < hash.size -> (chains b).length <= hash.num
  foreach_eq : forall p iter, hash.heap p = some iter -> iter.foreach = 0

/-- Every table that the calls lead to is one. -/
theorem Chained.threaded (h : Chained hash) : exists chains, Threaded hash chains := by
  rcases h.linked with ⟨chains, hlinked, hmem⟩
  rcases h.counted with ⟨entries, hentries, hnum⟩
  refine ⟨chains, hlinked, ?_, h.foreach_eq⟩
  intro b hb
  rw [hnum]
  apply length_le_card hlinked.nil_none (hlinked.doubly b hb)
  intro p hp
  rw [hentries, ← hmem, hlinked.atHome b hb p hp]
  exact hp

variable {chains : Nat -> List Ptr} {b turns : Nat}

theorem Threaded.entry_at (h : Threaded hash chains) (hb : b < hash.size) {first rest : List Ptr}
    (hsplit : chains b = first ++ p :: rest) : exists iter, hash.heap p = some iter ∧
      iter.next = rest.headD NULL ∧ iter.foreach = 0 := by
  have hdoubly := h.linked.doubly b hb
  rw [hsplit] at hdoubly
  rcases exists_of_heapLinks hdoubly.links_at with ⟨iter, hiter, hnext, _⟩
  exact ⟨iter, hiter, hnext, h.foreach_eq p iter hiter⟩

def MyHash.contentAt (hash : MyHash) (p : Ptr) : Ptr × Ptr :=
  ((hash.heap p).map fun iter => (iter.key, iter.value)).getD (NULL, NULL)

theorem Threaded.covers (h : Threaded hash chains) (hb : b < hash.size) :
    cursor.Covers hash.marked hash.contentAt (chains b) where
  ne_nil := fun p hp => h.linked.ne_nil hb hp
  arrive_marked := by
    intro p hp active
    rcases List.append_of_mem hp with ⟨first, rest, hsplit⟩
    rcases h.entry_at hb hsplit with ⟨iter, hiter, _⟩
    refine writeForeach_marked hiter (if_pos (List.mem_cons_self ..)) ?_
    intro q hq
    rw [List.mem_cons, or_iff_right hq]
  content_marked := by
    intro p hp active
    rcases List.append_of_mem hp with ⟨first, rest, hsplit⟩
    rcases h.entry_at hb hsplit with ⟨iter, hiter, _⟩
    simp only [cursor, marked_heap hiter, Option.map_some, MyHash.contentAt, hiter,
      Option.getD_some]
    split <;> rfl
  leave_marked := by
    intro first p rest hsplit active hactive
    rcases h.entry_at hb hsplit with ⟨iter, hiter, hnext, hzero⟩
    have hwrite : writeForeach (hash.marked (p :: active)) p 0 = some (hash.marked active) := by
      refine writeForeach_marked hiter (by rw [if_neg hactive, ← hzero]) ?_
      intro q hq
      rw [List.mem_cons, or_iff_right hq]
    have hmarked : (hash.marked (p :: active)).heap p = some { iter with foreach := 1 } := by
      rw [marked_heap hiter, if_pos (List.mem_cons_self ..)]
    show leaveIter p (hash.marked (p :: active)) = _
    rw [leaveIter, hmarked]
    simp only [Option.bind_eq_bind, Option.bind_some, if_neg Nat.one_ne_zero, hwrite,
      Option.map_some, hnext]
    rfl

/-!
## All buckets
-/

def entriesFrom (chains : Nat -> List Ptr) (idx count : Nat) : List Ptr :=
  (List.range' idx count).flatMap chains

theorem entriesFrom_succ (chains : Nat -> List Ptr) (idx count : Nat) :
    entriesFrom chains idx (count + 1) = chains idx ++ entriesFrom chains (idx + 1) count := by
  rw [entriesFrom, List.range'_succ, List.flatMap_cons]
  rfl

theorem walkBuckets_worse {func : MyHashFunc τ} (hfunc : Visitor.Worse flags func)
    {fuel idx : Nat} {own own' : τ}
    (hwalk : walkBuckets func turns fuel idx own hash = some (own', hash')) :
    flags.Worse hash hash' := by
  induction fuel generalizing idx own hash with
  | zero => cases hwalk
  | succ fuel ih =>
      rw [walkBuckets] at hwalk
      split at hwalk
      · simp only [walkChain_eq, Option.bind_eq_bind, Option.bind_eq_some_iff] at hwalk
        rcases hwalk with ⟨⟨ret, own₁, hash₁⟩, hchain, hrest⟩
        have hfirst := cursor_lawful.loop_worse hfunc hchain
        simp only at hrest
        split at hrest
        · cases hrest
          exact hfirst
        · exact hfirst.trans (ih hrest)
      · cases hwalk
        exact Flags.Worse.refl flags _

theorem walkBuckets_succ (h : Threaded hash chains) (func : MyHashFunc τ) {fuel idx : Nat}
    (hidx : idx < hash.size) (own : τ) : walkBuckets func turns (fuel + 1) idx own
      (hash.marked active) =
      (cursor.loop func turns ((chains idx).headD NULL) own (hash.marked active)).bind
        fun (ret, own, hash) =>
          if ret ≠ 0 then some (own, hash)
          else walkBuckets func turns fuel (idx + 1) own hash := by
  have hsize : idx < (hash.marked active).size := hidx
  have hstart : (hash.marked active).buckets idx = (chains idx).headD NULL :=
    (h.linked.doubly idx hidx).start_eq
  rw [walkBuckets, if_pos hsize, walkChain_eq, hstart]
  rfl

variable {answer : τ -> Ptr -> Nat × τ} {Good : τ -> Ptr -> Prop} {func : MyHashFunc τ}

theorem walkBuckets_quiet (h : Threaded hash chains) (hturns : hash.num < turns)
    {count fuel idx : Nat} {own : τ} (hsize : idx + count = hash.size) (hfuel : count < fuel)
    (hvisits : EachVisit
      (fun own p => p ∉ active ∧
        Cursor.Quiet func hash.marked hash.contentAt answer active own p)
      answer (entriesFrom chains idx count) own) :
    walkBuckets func turns fuel idx own (hash.marked active) =
      some ((visitAll answer (entriesFrom chains idx count) own).2, hash.marked active) := by
  induction count generalizing fuel idx own with
  | zero =>
      cases fuel with
      | zero => cases hfuel
      | succ fuel =>
          have hend : ¬idx < (hash.marked active).size := by
            show ¬idx < hash.size
            omega
          rw [walkBuckets, if_neg hend]
          rfl
  | succ count ih =>
      cases fuel with
      | zero => cases hfuel
      | succ fuel =>
          have hidx : idx < hash.size := by omega
          rw [entriesFrom_succ, eachVisit_append] at hvisits
          have hcovers : cursor.Covers hash.marked hash.contentAt ([] ++ chains idx) :=
            h.covers hidx
          have hchain := hcovers.loop_quiet (Nat.lt_of_le_of_lt (h.length_le idx hidx) hturns)
            hvisits.left
          rw [walkBuckets_succ h func hidx, show NULL = cursor.nil from rfl, hchain,
            Option.bind_some, entriesFrom_succ, visitAll_append]
          by_cases hzero : (visitAll answer (chains idx) own).1 = 0
          · rw [if_pos hzero]
            simp only [hzero, ne_eq, not_true_eq_false, if_false]
            exact ih (by omega) (Nat.lt_of_succ_lt_succ hfuel) (hvisits.right hzero)
          · rw [if_neg hzero]
            simp only [ne_eq, hzero, not_false_eq_true, if_true]

theorem walkBuckets_broken (h : Threaded hash chains) (hturns : hash.num < turns)
    (hbreaks : Cursor.Breaks flags hash.log.length func hash.marked hash.contentAt answer active
      Good)
    {count fuel idx : Nat} {own own' : τ} (hsize : idx + count = hash.size)
    (hvisits : ¬EachVisit (fun own p => p ∉ active ∧ Good own p) answer
      (entriesFrom chains idx count) own)
    (hwalk : walkBuckets func turns fuel idx own (hash.marked active) = some (own', hash')) :
    flags.Broken hash.log.length active hash' := by
  induction count generalizing fuel idx own with
  | zero => exact absurd trivial hvisits
  | succ count ih =>
      cases fuel with
      | zero => cases hwalk
      | succ fuel =>
          have hidx : idx < hash.size := by omega
          have hcovers : cursor.Covers hash.marked hash.contentAt ([] ++ chains idx) :=
            h.covers hidx
          rw [walkBuckets_succ h func hidx, Option.bind_eq_some_iff] at hwalk
          rcases hwalk with ⟨⟨ret, own₁, hash₁⟩, hchain, hrest⟩
          simp only at hrest
          by_cases hfirst : EachVisit (fun own p => p ∉ active ∧ Good own p) answer
              (chains idx) own
          · -- this chain is left alone, so a later one is not
            have hquiet := hcovers.loop_quiet
              (Nat.lt_of_le_of_lt (h.length_le idx hidx) hturns)
              (hfirst.mono fun own p _ hp => ⟨hp.left, hbreaks.quiet own p hp.right⟩)
            rw [show cursor.nil = NULL from rfl, hchain] at hquiet
            cases hquiet
            rw [entriesFrom_succ, eachVisit_append] at hvisits
            have hlater : (visitAll answer (chains idx) own).1 = 0 ∧
                ¬EachVisit (fun own p => p ∉ active ∧ Good own p) answer
                  (entriesFrom chains (idx + 1) count) (visitAll answer (chains idx) own).2 := by
              tauto
            rw [if_neg (not_not_intro hlater.left)] at hrest
            exact ih (by omega) hlater.right hrest
          · have hbroken := cursor_lawful.loop_broken hcovers (fun _ => rfl) hbreaks hfirst hchain
            split at hrest
            · cases hrest
              exact hbroken
            · exact hbroken.worse (walkBuckets_worse hbreaks.worse hrest)

/-!
## The walk as callbacks see it
-/

abbrev ReadOnly (τ : Type) := Callback Unit (Ptr × Ptr) MyHash τ

def walks (turns : Nat) : Walks Unit (Ptr × Ptr) MyHash τ :=
  fun _ func own hash => myHashForeach turns hash (some func) own

def MyHash.still (hash : MyHash) (chains : Nat -> List Ptr) :
    Still Unit Ptr (Ptr × Ptr) MyHash where
  order := fun _ => entriesFrom chains 0 hash.size
  content := hash.contentAt
  marked := hash.marked

theorem Threaded.walked (h : Threaded hash chains) (hturns : hash.num < turns)
    (hsize : hash.size < turns) :
    Callback.Walked (hash.still chains) flags hash.log.length
      (walks turns : Walks Unit (Ptr × Ptr) MyHash τ) where
  worse := by
    intro _ visit hvisit own hash own' hash' hwalk
    exact walkBuckets_worse hvisit hwalk
  quiet := by
    intro _ visit answer active own hvisits
    exact walkBuckets_quiet h hturns (Nat.zero_add _) hsize hvisits
  broken := by
    intro _ visit answer active Good own hbreaks hvisits own' hash' hwalk
    exact walkBuckets_broken h hturns hbreaks (Nat.zero_add _) hvisits hwalk

end ChainedHash
end MyLibs
