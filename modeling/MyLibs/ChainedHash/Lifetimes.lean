import Mathlib.Data.List.Count
import MyLibs.ChainedHash.Contents
import MyLibs.ChainedHash.Runs

/-!
# The lifetimes of entries

Which entries the calls allocate and free, whatever callbacks the table has. An
address may be allocated again after it has been freed, so both are counted.
-/

namespace MyLibs
namespace ChainedHash

open Foundation

variable {hash hash' hash'' : MyHash} {p key : Ptr} {HASH_GROW_STEP : Nat} {outcome : Outcome}

def live (heap : Heap) (p : Ptr) : Nat :=
  if heap p = none then 0 else 1

/-- What a call does to the entries: `made` lists those it has allocated, and
what is no longer there has been freed. -/
structure Effect (hash hash' : MyHash) (made : List Ptr) : Prop where
  chained : Chained hash'
  ops_eq : hash'.ops = hash.ops
  account : forall p, live hash'.heap p + hash'.log.count (.free p) =
    live hash.heap p + hash.log.count (.free p) + made.count p

theorem Effect.refl (h : Chained hash) : Effect hash hash [] where
  chained := h
  ops_eq := rfl
  account := fun _ => rfl

theorem Effect.trans {made made' : List Ptr} (hfirst : Effect hash hash' made)
    (hsecond : Effect hash' hash'' made') : Effect hash hash'' (made ++ made') where
  chained := hsecond.chained
  ops_eq := hsecond.ops_eq.trans hfirst.ops_eq
  account := by
    intro p
    have h := hfirst.account p
    have h' := hsecond.account p
    rw [List.count_append]
    omega

/-!
## Parts of the calls
-/

def Event.Silent : Event -> Prop
  | .free _ => False
  | _ => True

theorem count_eventIf (set : Bool) (event : Event) (hevent : event.Silent) (p : Ptr) :
    (eventIf set event).count (.free p) = 0 := by
  cases set with
  | false => rfl
  | true =>
      refine List.count_eq_zero.mpr fun hmem => ?_
      rw [← List.mem_singleton.mp hmem] at hevent
      exact hevent

theorem count_deleteEvents (ops : MyHashOps) (entry : MyHashIter) (p : Ptr) :
    (deleteEvents ops entry).count (.free p) = 0 := by
  rw [deleteEvents, List.count_append, count_eventIf _ (.keyFree _) trivial,
    count_eventIf _ (.valueFree _) trivial]

theorem live_congr {heap heap' : Heap} (hdata : SameData heap heap') (p : Ptr) :
    live heap' p = live heap p := by
  simp only [live, hdata.none_iff]

theorem Leaves.effect {heap : Heap} {events : List Event} {made : List Ptr}
    (h : Leaves hash hash' heap events) (hchained : Chained hash')
    (haccount : forall p, live heap p + events.count (.free p) =
      live hash.heap p + made.count p) : Effect hash hash' made where
  chained := hchained
  ops_eq := h.ops_eq
  account := by
    intro p
    rw [h.log_eq, List.count_append, live_congr h.data]
    have := haccount p
    omega

/-!
## Calls
-/

/-- A call is given the conditions under which the source says what it does: an
index is an `int`, nothing is divided by zero, and `my_calloc` finds unused
memory. -/
def Call.Defined (HASH_GROW_STEP : Nat) (hash : MyHash) : Call -> Prop
  | .lookadd key outcome => HASH_INDEX (hash.ops.hash key) hash.size < 2 ^ 31 ∧
      FreshEntry hash outcome ∧ (isFull hash = true -> outcome.buckets = true ->
        0 < uint (HASH_GROW_STEP * hash.size))
  | .add key _ outcome => HASH_INDEX (hash.ops.hash key) hash.size < 2 ^ 31 ∧
      FreshEntry hash outcome ∧ (isFull hash = true -> outcome.buckets = true ->
        0 < uint (HASH_GROW_STEP * hash.size))
  | .delete key => HASH_INDEX (hash.ops.hash key) hash.size < 2 ^ 31

def lookaddMakes (hash : MyHash) (key : Ptr) (outcome : Outcome) : List Ptr :=
  if key ≠ NULL ∧ myHashLookup hash key = some NULL ∧ outcome.entry ≠ NULL then
    [outcome.entry]
  else
    []

def Call.makes (hash : MyHash) : Call -> List Ptr
  | .lookadd key outcome => lookaddMakes hash key outcome
  | .add key _ outcome => lookaddMakes hash key outcome
  | .delete _ => []

theorem effect_lookadd (h : Chained hash) {ret : Ptr}
    (hcases : LookaddCases hash key outcome ret hash') :
    Effect hash hash' (lookaddMakes hash key outcome) := by
  have hchained := (hcases.chained h).left
  rw [lookaddMakes]
  cases hcases with
  | refused hnull =>
      rw [if_neg]
      · exact Effect.refl h
      · rintro ⟨hkey, _, hentry⟩
        cases hnull with
        | inl hnull => exact hkey hnull
        | inr hnull => exact hentry hnull.right
  | found hkey hlookup hne =>
      rw [if_neg]
      · exact Effect.refl h
      · rintro ⟨_, hnone, _⟩
        rw [hlookup] at hnone
        exact hne (Option.some.inj hnone)
  | added hkey hlookup hentry hfree hleaves =>
      rw [if_pos ⟨hkey, hlookup, hentry⟩]
      refine hleaves.effect hchained fun q => ?_
      rw [count_eventIf _ (.keyDup _ _) trivial]
      cases eq_or_ne q outcome.entry with
      | inl heq =>
          rw [heq, List.count_singleton_self]
          simp [live, hfree]
      | inr hne =>
          rw [List.count_singleton, if_neg (by simpa using hne.symm)]
          simp [live, Function.update_of_ne hne]

theorem effect_add (h : Chained hash) {ret value : Ptr}
    (hcases : AddCases hash key value outcome ret hash') :
    Effect hash hash' (lookaddMakes hash key outcome) := by
  cases hcases with
  | refused hlooked => exact effect_lookadd h hlooked
  | @set q looked _ entry hlooked _ hp hleaves =>
      have heffect := effect_lookadd h hlooked
      have hset : Effect looked hash' [] := by
        refine hleaves.effect (hleaves.chained fun r iter hr => ?_) fun r => ?_
        · rcases update_some_cases hr with ⟨_, hiter⟩ | ⟨_, hr⟩
          · rw [hiter]
            exact heffect.chained.foreach_eq ret entry hp
          · exact heffect.chained.foreach_eq r iter hr
        · rw [List.count_append, count_eventIf _ (.valueDup _ _) trivial,
            count_eventIf _ (.valueFree _) trivial]
          cases eq_or_ne r ret with
          | inl heq => simp [live, heq, hp]
          | inr hne => simp [live, Function.update_of_ne hne]
      have hboth := heffect.trans hset
      rw [List.append_nil] at hboth
      exact hboth

theorem effect_iterDelete (h : Chained hash)
    (hcall : myHashIterDelete hash p = some hash') : Effect hash hash' [] := by
  cases myHashIterDelete_cases h.joined hcall with
  | none _ => exact Effect.refl h
  | deferred _ hentry hflag _ => exact absurd (h.foreach_eq p _ hentry) hflag
  | removed _ hentry _ hleaves =>
      refine hleaves.effect (hleaves.chained fun q iter hq => ?_) fun q => ?_
      · exact h.foreach_eq q iter (update_none_cases hq).right
      · cases eq_or_ne q p with
        | inl heq =>
            rw [heq, List.count_cons_self, count_deleteEvents]
            simp [live, hentry]
        | inr hne =>
            have hother : Event.free p ≠ .free q := fun heq => hne (Event.free.inj heq).symm
            rw [List.count_cons_of_ne hother, count_deleteEvents]
            simp [live, Function.update_of_ne hne]

theorem effect_apply (h : Chained hash) {call : Call} (hdefined : call.Defined HASH_GROW_STEP hash)
    {ret : Ptr} (hcall : call.apply HASH_GROW_STEP hash = some (ret, hash')) :
    Effect hash hash' (call.makes hash) := by
  cases call with
  | lookadd key outcome =>
      exact effect_lookadd h
        (myHashLookadd_cases h hdefined.right.left hdefined.right.right hcall)
  | add key value outcome =>
      exact effect_add h (myHashAdd_cases h hdefined.right.left hdefined.right.right hcall)
  | delete key =>
      rcases Option.map_eq_some_iff.mp hcall with ⟨after, hdelete, hpair⟩
      cases hpair
      simp only [myHashDelete, Option.bind_eq_bind, Option.bind_eq_some_iff] at hdelete
      rcases hdelete with ⟨iter, _, hdelete⟩
      exact effect_iterDelete h hdelete

/-!
## Runs
-/

inductive Lifetime (HASH_GROW_STEP : Nat) (start : MyHash) : List Ptr -> MyHash -> Prop
  | nil : Lifetime HASH_GROW_STEP start [] start
  | call {made : List Ptr} {hash hash' : MyHash} {call : Call} {ret : Ptr} :
      Lifetime HASH_GROW_STEP start made hash -> call.Defined HASH_GROW_STEP hash ->
      call.apply HASH_GROW_STEP hash = some (ret, hash') ->
      Lifetime HASH_GROW_STEP start (made ++ call.makes hash) hash'
  | clear {made : List Ptr} {hash hash' : MyHash} :
      Lifetime HASH_GROW_STEP start made hash ->
      myHashClear (some hash) = some (some hash') ->
      Lifetime HASH_GROW_STEP start made hash'

theorem chained_init (size : Nat) (ops : MyHashOps) : Chained (myHashInit size ops) where
  size_pos := by
    show 0 < if size = 0 then HASH_DEFAULT_SIZE else size
    split
    · decide
    · omega
  linked := ⟨fun _ => [], ⟨rfl, fun _ _ => rfl, fun _ _ _ hq => by cases hq⟩, by simp [myHashInit]⟩
  counted := ⟨∅, by simp [myHashInit], rfl⟩
  address_lt := fun p hp => absurd rfl hp
  foreach_eq := fun p iter hp => by cases hp

/-- The guard of `my_hash_clear` lets only a null pointer through. -/
theorem myHashClear_table (hash : MyHash) : myHashClear (some hash) = some (some hash) :=
  rfl

theorem Lifetime.effect {start : MyHash} {made : List Ptr} (h : Chained start)
    (hrun : Lifetime HASH_GROW_STEP start made hash) : Effect start hash made := by
  induction hrun with
  | nil => exact Effect.refl h
  | call _ hdefined hcall ih => exact ih.trans (effect_apply ih.chained hdefined hcall)
  | clear _ hclear ih =>
      rw [myHashClear_table] at hclear
      cases hclear
      exact ih

end ChainedHash
end MyLibs
