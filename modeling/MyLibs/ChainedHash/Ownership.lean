import Mathlib.Logic.Relation
import MyLibs.Foundation.Ledger
import MyLibs.ChainedHash.Iteration
import MyLibs.ChainedHash.Walks

/-!
# Who owns the keys and the values

A table that frees keys and values, call after call. A walk is taken step by step,
so that what its callback does falls between the steps. Two ledgers note what
happens to the keys and to the values.
-/

namespace MyLibs
namespace ChainedHash

open Foundation

/-!
## Ledgers
-/

def object (p : Ptr) : Option Ptr :=
  if p = NULL then none else some p

def slot (member : MyHashIter -> Ptr) (heap : Heap) (p : Ptr) : Option Ptr :=
  (heap p).bind fun iter => object (member iter)

def keyMarks : Event -> List (Mark Ptr)
  | .keyDup _ copy => (object copy).toList.map .made
  | .keyFree key => (object key).toList.map .freed
  | _ => []

def valueMarks : Event -> List (Mark Ptr)
  | .valueDup value copy =>
      (object copy).toList.map .made ++ (object value).toList.map .used
  | .valueFree value => (object value).toList.map .freed
  | _ => []

def newEvents (hash hash' : MyHash) : List Event :=
  hash'.log.take (hash'.log.length - hash.log.length)

def comparedEntries (ops : MyHashOps) (heap : Heap) (key : Ptr) : Nat -> Ptr -> List Ptr
  | 0, _ => []
  | fuel + 1, pre =>
      if pre = NULL then
        []
      else
        (heap pre).elim [] fun entry =>
          if ops.compare key entry.key = 0 then
            [pre]
          else
            pre :: comparedEntries ops heap key fuel entry.next

def deleteCompares (hash : MyHash) (key : Ptr) : List Ptr :=
  comparedEntries hash.ops hash.heap key (hash.num + 1)
    (hash.buckets (HASH_INDEX (hash.ops.hash key) hash.size))

def lookupCompares (hash : MyHash) (key : Ptr) : List Ptr :=
  if key = NULL then [] else deleteCompares hash key

def Call.compares (hash : MyHash) : Call -> List Ptr
  | .lookadd key _ => lookupCompares hash key
  | .add key _ _ => lookupCompares hash key
  | .delete key => deleteCompares hash key

def keyAt (heap : Heap) (p : Ptr) : Ptr :=
  (heap p).elim NULL MyHashIter.key

def storedKey (hash : MyHash) (ret : Ptr) (hash' : MyHash) : Option Ptr :=
  if hash.heap ret = none then slot MyHashIter.key hash'.heap ret else none

def Call.storedValue (ret : Ptr) (hash' : MyHash) : Call -> Option Ptr
  | .add _ _ _ => slot MyHashIter.value hash'.heap ret
  | _ => none

/-!
## Steps
-/

/-- What a callback of a walk does with the table: it looks keys up and deletes
them, and can read everything. It ends with a result and a state of its own. -/
inductive Visit (τ : Type) where
  | done (ret : Nat) (own : τ)
  | lookup (key : Ptr) (next : Ptr -> MyHash -> Visit τ)
  | delete (key : Ptr) (next : MyHash -> Visit τ)

abbrev Visitor (τ : Type) := τ -> Ptr × Ptr -> MyHash -> Visit τ

/-- Where `my_hash_foreach` stands: outside, before a bucket, before an entry, or in
the callback for an entry. -/
inductive Walk (τ : Type) where
  | idle
  | bucket (func : Visitor τ) (idx : Nat) (own : τ)
  | entry (func : Visitor τ) (idx : Nat) (pre : Ptr) (own : τ)
  | visit (func : Visitor τ) (idx : Nat) (pre : Ptr) (visit : Visit τ)

def Walk.current {τ : Type} : Walk τ -> Option Ptr
  | .visit _ _ pre _ => some pre
  | _ => none

structure State (τ : Type) where
  hash : MyHash
  walk : Walk τ
  keys : List (Mark Ptr)
  values : List (Mark Ptr)

variable {τ : Type}

def State.start (τ : Type) (size : Nat) (ops : MyHashOps) : State τ where
  hash := myHashInit size ops
  walk := .idle
  keys := []
  values := []

def State.after (s : State τ) (compared : List Ptr) (hash : MyHash) (walk : Walk τ) :
    State τ where
  hash := hash
  walk := walk
  keys := (newEvents s.hash hash).flatMap keyMarks ++
    ((compared.reverse.map (keyAt s.hash.heap)).map .used ++ s.keys)
  values := (newEvents s.hash hash).flatMap valueMarks ++ s.values

def State.called (s : State τ) (call : Call) (ret : Ptr) (hash : MyHash) : State τ where
  hash := hash
  walk := s.walk
  keys := (storedKey s.hash ret hash).toList.map .stored ++
    (s.after (call.compares s.hash) hash s.walk).keys
  values := (call.storedValue ret hash).toList.map .stored ++
    (s.after (call.compares s.hash) hash s.walk).values

def visitStep (s : State τ) (func : Visitor τ) (idx : Nat) (pre : Ptr) :
    Visit τ -> Option (State τ)
  | .done ret own => do
      let (next, hash) <- leaveIter pre s.hash
      some (s.after [] hash (if ret ≠ 0 then .idle else .entry func idx next own))
  | .lookup key next => do
      let p <- myHashLookup s.hash key
      some (s.after (lookupCompares s.hash key) s.hash (.visit func idx pre (next p s.hash)))
  | .delete key next => do
      let hash <- myHashDelete s.hash key
      some (s.after (deleteCompares s.hash key) hash (.visit func idx pre (next hash)))

def walkStep (s : State τ) : Option (State τ) :=
  match s.walk with
  | .idle => none
  | .bucket func idx own =>
      if idx < s.hash.size then
        some { s with walk := .entry func idx (s.hash.buckets idx) own }
      else
        some { s with walk := .idle }
  | .entry func idx pre own =>
      if pre = NULL then
        some { s with walk := .bucket func (idx + 1) own }
      else do
        let hash <- writeForeach s.hash pre 1
        let iter <- hash.heap pre
        some { s with
          hash := hash
          walk := .visit func idx pre (func own (iter.key, iter.value) hash) }
  | .visit func idx pre visit => visitStep s func idx pre visit

/-- What happens next: the surroundings make an object, a function is called, or the
walk goes on. -/
inductive Move (τ : Type) where
  | make (p : Ptr)
  | calls (call : Call)
  | lookup (key : Ptr)
  | foreach (func : Visitor τ) (own : τ)
  | walk

def State.ifIdle (s : State τ) (next : Option (State τ)) : Option (State τ) :=
  match s.walk with
  | .idle => next
  | _ => none

def Move.apply (HASH_GROW_STEP : Nat) (s : State τ) : Move τ -> Option (State τ)
  | .make p =>
      if p = NULL then
        none
      else
        some { s with keys := .made p :: s.keys, values := .made p :: s.values }
  | .calls call => s.ifIdle do
      let (ret, hash) <- call.apply HASH_GROW_STEP s.hash
      some (s.called call ret hash)
  | .lookup key => s.ifIdle do
      let _ <- myHashLookup s.hash key
      some (s.after (lookupCompares s.hash key) s.hash .idle)
  | .foreach func own => s.ifIdle (some { s with walk := .bucket func 0 own })
  | .walk => walkStep s

/-!
## Rules
-/

def Walk.searchedKey : Walk τ -> Option Ptr
  | .visit _ _ _ (.lookup key _) => some key
  | .visit _ _ _ (.delete key _) => some key
  | _ => none

/-- The source says what a step does: an index is an `int`, nothing is divided by
zero, and `my_calloc` finds unused memory. -/
def Move.Defined (HASH_GROW_STEP : Nat) (s : State τ) : Move τ -> Prop
  | .make _ => True
  | .calls call => call.Defined HASH_GROW_STEP s.hash
  | .lookup key => HASH_INDEX (s.hash.ops.hash key) s.hash.size < 2 ^ 31
  | .foreach _ _ => True
  | .walk => forall key, s.walk.searchedKey = some key ->
      HASH_INDEX (s.hash.ops.hash key) s.hash.size < 2 ^ 31

/-- A key that is not in the table yet: `key_dup` makes a new object, or the caller
gives away a live key. -/
def GivesKey (s : State τ) (key : Ptr) (outcome : Outcome) : Prop :=
  if s.hash.ops.keyDup then
    outcome.keyCopy ≠ NULL ∧ forall p, slot MyHashIter.key s.hash.heap p ≠ some outcome.keyCopy
  else
    Live key s.keys ∧ (s.hash.ops.compare key key = 0 ∨
      forall p, slot MyHashIter.key s.hash.heap p ≠ some key)

/-- A value: `value_dup` makes a new object from a live value that the call does not
free, or the caller gives away a live value that no entry holds. -/
def GivesValue (s : State τ) (key value : Ptr) (outcome : Outcome) : Prop :=
  if s.hash.ops.valueDup then
    (forall v, object value = some v -> Live v s.values ∧
      forall p, myHashLookup s.hash key = some p -> slot MyHashIter.value s.hash.heap p ≠ some v) ∧
    forall p, slot MyHashIter.value s.hash.heap p = some outcome.valueCopy ->
      myHashLookup s.hash key = some p
  else
    forall v, object value = some v -> Live v s.values ∧
      forall p, slot MyHashIter.value s.hash.heap p ≠ some v

def MakesEntry (hash : MyHash) (key : Ptr) (outcome : Outcome) : Prop :=
  key ≠ NULL ∧ myHashLookup hash key = some NULL ∧ outcome.entry ≠ NULL

def ReturnsEntry (hash : MyHash) (key : Ptr) (outcome : Outcome) : Prop :=
  key ≠ NULL ∧ (myHashLookup hash key ≠ some NULL ∨ outcome.entry ≠ NULL)

def Call.Gives (s : State τ) : Call -> Prop
  | .lookadd key outcome => MakesEntry s.hash key outcome -> GivesKey s key outcome
  | .add key value outcome =>
      (MakesEntry s.hash key outcome -> GivesKey s key outcome) ∧
        (ReturnsEntry s.hash key outcome -> GivesValue s key value outcome)
  | .delete _ => True

/-- No search gets to the current entry once it has been deleted. -/
def Avoids (hash : MyHash) (pre : Ptr) (compared : List Ptr) : Prop :=
  forall iter, hash.heap pre = some iter -> iter.foreach = 0 -> pre ∉ compared

def Visit.Careful (hash : MyHash) (pre : Ptr) : Visit τ -> Prop
  | .done _ _ => True
  | .lookup key _ => Avoids hash pre (lookupCompares hash key)
  | .delete key _ => Avoids hash pre (deleteCompares hash key)

structure Move.Careful (HASH_GROW_STEP : Nat) (s : State τ) (move : Move τ) : Prop where
  defined : move.Defined HASH_GROW_STEP s
  gives : forall call, move = .calls call -> call.Gives s
  visit : forall func idx pre visit, move = .walk -> s.walk = .visit func idx pre visit ->
    visit.Careful s.hash pre

inductive Reaches (HASH_GROW_STEP : Nat) (Permitted : State τ -> Move τ -> Prop)
    (start : State τ) : State τ -> Prop
  | start : Reaches HASH_GROW_STEP Permitted start start
  | move {s s' : State τ} (move : Move τ) : Reaches HASH_GROW_STEP Permitted start s ->
      Permitted s move -> move.apply HASH_GROW_STEP s = some s' ->
      Reaches HASH_GROW_STEP Permitted start s'

/-!
## A walk as one call
-/

def Visit.perform : Visit τ -> MyHash -> Option (Nat × τ × MyHash)
  | .done ret own, hash => some (ret, own, hash)
  | .lookup key next, hash => do
      let p <- myHashLookup hash key
      (next p hash).perform hash
  | .delete key next, hash => do
      let hash <- myHashDelete hash key
      (next hash).perform hash

def callback (func : Visitor τ) : MyHashFunc τ :=
  fun own content hash => (func own content hash).perform hash

def WalkSteps : State τ -> State τ -> Prop :=
  Relation.ReflTransGen fun s s' => walkStep s = some s'

variable {s : State τ} {func : Visitor τ} {idx : Nat} {pre : Ptr} {own own' : τ} {ret : Nat}
  {hash' : MyHash}

theorem visit_walks {visit : Visit τ} (hwalk : s.walk = .visit func idx pre visit)
    (hperform : visit.perform s.hash = some (ret, own', hash')) :
    exists s', WalkSteps s s' ∧ s'.hash = hash' ∧
      s'.walk = .visit func idx pre (.done ret own') := by
  induction visit generalizing s with
  | done ret own =>
      cases hperform
      exact ⟨s, Relation.ReflTransGen.refl, rfl, hwalk⟩
  | lookup key next ih =>
      simp only [Visit.perform, Option.bind_eq_bind, Option.bind_eq_some_iff] at hperform
      rcases hperform with ⟨p, hlookup, hrest⟩
      have hstep : walkStep s = some (s.after (lookupCompares s.hash key) s.hash
          (.visit func idx pre (next p s.hash))) := by
        simp only [walkStep, hwalk, visitStep, hlookup, Option.bind_eq_bind, Option.bind_some]
      have hnext : (s.after (lookupCompares s.hash key) s.hash
          (.visit func idx pre (next p s.hash))).walk = .visit func idx pre (next p s.hash) := rfl
      rcases ih p s.hash hnext hrest with ⟨s', hwalks, hdone⟩
      exact ⟨s', Relation.ReflTransGen.head hstep hwalks, hdone⟩
  | delete key next ih =>
      simp only [Visit.perform, Option.bind_eq_bind, Option.bind_eq_some_iff] at hperform
      rcases hperform with ⟨hash, hdelete, hrest⟩
      have hstep : walkStep s = some (s.after (deleteCompares s.hash key) hash
          (.visit func idx pre (next hash))) := by
        simp only [walkStep, hwalk, visitStep, hdelete, Option.bind_eq_bind, Option.bind_some]
      have hnext : (s.after (deleteCompares s.hash key) hash
          (.visit func idx pre (next hash))).walk = .visit func idx pre (next hash) := rfl
      rcases ih hash hnext hrest with ⟨s', hwalks, hdone⟩
      exact ⟨s', Relation.ReflTransGen.head hstep hwalks, hdone⟩

theorem chain_walks {turns : Nat} (hwalk : s.walk = .entry func idx pre own)
    (hchain : walkChain (callback func) turns pre own s.hash = some (ret, own', hash')) :
    exists s', WalkSteps s s' ∧ s'.hash = hash' ∧
      s'.walk = if ret ≠ 0 then .idle else .bucket func (idx + 1) own' := by
  induction turns generalizing s pre own with
  | zero => cases hchain
  | succ turns ih =>
      rw [walkChain] at hchain
      split at hchain
      · rename_i hnull
        cases hchain
        have hstep : walkStep s = some { s with walk := .bucket func (idx + 1) own' } := by
          simp only [walkStep, hwalk, if_pos hnull]
        exact ⟨_, Relation.ReflTransGen.single hstep, rfl, rfl⟩
      · rename_i hne
        simp only [Option.bind_eq_bind, Option.bind_eq_some_iff] at hchain
        rcases hchain with ⟨hash₁, hwrite, iter, hiter, ⟨ret₁, own₁, hash₂⟩, hcall,
          ⟨next, hash₃⟩, hleave, hrest⟩
        have harrive : walkStep s = some { s with
            hash := hash₁
            walk := .visit func idx pre (func own (iter.key, iter.value) hash₁) } := by
          simp only [walkStep, hwalk, if_neg hne, hwrite, hiter, Option.bind_eq_bind,
            Option.bind_some]
        have hvisiting : ({ s with
            hash := hash₁
            walk := .visit func idx pre (func own (iter.key, iter.value) hash₁) } : State τ).walk =
            .visit func idx pre (func own (iter.key, iter.value) hash₁) := rfl
        rcases visit_walks hvisiting hcall with ⟨s₂, hvisit, hhash, hreturns⟩
        have hleft : walkStep s₂ = some (s₂.after [] hash₃
            (if ret₁ ≠ 0 then .idle else .entry func idx next own₁)) := by
          simp only [walkStep, hreturns, visitStep, hhash, hleave, Option.bind_eq_bind,
            Option.bind_some]
        have hsteps : WalkSteps s (s₂.after [] hash₃
            (if ret₁ ≠ 0 then .idle else .entry func idx next own₁)) :=
          Relation.ReflTransGen.head harrive (hvisit.tail hleft)
        simp only at hrest
        split at hrest
        · rename_i hret
          cases hrest
          exact ⟨_, hsteps, rfl, by rw [if_pos hret, State.after, if_pos hret]⟩
        · rename_i hret
          rw [if_neg hret] at hsteps
          have hentry : (s₂.after [] hash₃ (.entry func idx next own₁)).walk =
              .entry func idx next own₁ := rfl
          rcases ih hentry hrest with ⟨s', hwalks, hdone⟩
          exact ⟨s', hsteps.trans hwalks, hdone⟩

theorem buckets_walks {turns fuel : Nat} (hwalk : s.walk = .bucket func idx own)
    (hbuckets : walkBuckets (callback func) turns fuel idx own s.hash = some (own', hash')) :
    exists s', WalkSteps s s' ∧ s'.hash = hash' ∧ s'.walk = .idle := by
  induction fuel generalizing s idx own with
  | zero => cases hbuckets
  | succ fuel ih =>
      rw [walkBuckets] at hbuckets
      split at hbuckets
      · rename_i hidx
        have hstep : walkStep s = some { s with
            walk := .entry func idx (s.hash.buckets idx) own } := by
          simp only [walkStep, hwalk, if_pos hidx]
        simp only [Option.bind_eq_bind, Option.bind_eq_some_iff] at hbuckets
        rcases hbuckets with ⟨⟨ret, own₁, hash₁⟩, hchain, hrest⟩
        have hentry : ({ s with walk := .entry func idx (s.hash.buckets idx) own } : State τ).walk =
            .entry func idx (s.hash.buckets idx) own := rfl
        rcases chain_walks hentry hchain with ⟨s₁, hwalks, hhash, hwalk₁⟩
        have hsteps : WalkSteps s s₁ := Relation.ReflTransGen.head hstep hwalks
        simp only at hrest
        split at hrest
        · rename_i hret
          cases hrest
          rw [if_pos hret] at hwalk₁
          exact ⟨s₁, hsteps, hhash, hwalk₁⟩
        · rename_i hret
          rw [if_neg hret] at hwalk₁
          rw [← hhash] at hrest
          rcases ih hwalk₁ hrest with ⟨s', hwalks', hdone⟩
          exact ⟨s', hsteps.trans hwalks', hdone⟩
      · rename_i hidx
        cases hbuckets
        have hstep : walkStep s = some { s with walk := .idle } := by
          simp only [walkStep, hwalk, if_neg hidx]
        exact ⟨_, Relation.ReflTransGen.single hstep, rfl, rfl⟩

/-- What `my_hash_foreach` does is what the steps of its walk do. -/
theorem myHashForeach_walks {turns HASH_GROW_STEP : Nat} (hidle : s.walk = .idle)
    (hforeach : myHashForeach turns s.hash (some (callback func)) own = some (own', hash')) :
    exists started s', Move.apply HASH_GROW_STEP s (.foreach func own) = some started ∧
      WalkSteps started s' ∧ s'.hash = hash' ∧ s'.walk = .idle := by
  have hstart : Move.apply HASH_GROW_STEP s (.foreach func own) =
      some { s with walk := .bucket func 0 own } := by
    simp only [Move.apply, State.ifIdle, hidle]
  have hbucket : ({ s with walk := .bucket func 0 own } : State τ).walk = .bucket func 0 own := rfl
  rcases buckets_walks hbucket hforeach with ⟨s', hwalks, hdone⟩
  exact ⟨_, s', hstart, hwalks, hdone⟩

end ChainedHash
end MyLibs
