import MyLibs.ChainedHash.Lifetimes
import MyLibs.ChainedHash.Ownership

/-!
# The table owns what its entries hold
-/

namespace MyLibs
namespace ChainedHash

open Foundation

/-- What an entry holds, while the callback for `current` runs. The current entry
loses its flag when it is deleted. -/
inductive EntryState (current : Option Ptr) (p : Ptr) (iter : MyHashIter) : Prop
  | kept : current ≠ some p -> iter.foreach = 0 -> iter.key ≠ NULL -> EntryState current p iter
  | visited : current = some p -> iter.foreach ≠ 0 -> iter.key ≠ NULL ->
      EntryState current p iter
  | deleted : current = some p -> iter.foreach = 0 -> iter.key = NULL -> iter.value = NULL ->
      EntryState current p iter

structure Owners (ops : MyHashOps) (current : Option Ptr) (heap : Heap)
    (keys values : List (Mark Ptr)) : Prop where
  keyLedger : Ledger keys (slot MyHashIter.key heap)
  valueLedger : Ledger values (slot MyHashIter.value heap)
  entry : forall p iter, heap p = some iter -> EntryState current p iter
  keyHash_eq : ops.keyDup = false -> forall p iter, heap p = some iter -> iter.key ≠ NULL ->
    iter.keyHash = ops.hash iter.key
  used_ne : Mark.used NULL ∉ keys

structure Noted (log : List Event) (keys values : List (Mark Ptr)) : Prop where
  keys_count : forall k, k ≠ NULL -> keys.count (.freed k) = log.count (.keyFree k)
  values_count : forall v, v ≠ NULL -> values.count (.freed v) = log.count (.valueFree v)

structure Sound {τ : Type} (s : State τ) : Prop where
  joined : Joined s.hash
  noted : Noted s.hash.log s.keys s.values
  keyFree : s.hash.ops.keyFree = true
  valueFree : s.hash.ops.valueFree = true
  owners : Owners s.hash.ops s.walk.current s.hash.heap s.keys s.values

variable {ops : MyHashOps} {current : Option Ptr} {heap heap' : Heap}
  {keys values : List (Mark Ptr)} {p q key : Ptr} {iter : MyHashIter}

/-!
## Slots
-/

theorem object_eq_some_iff : object p = some q <-> p = q ∧ p ≠ NULL := by
  rw [object]
  split
  · rename_i hp
    simp [hp]
  · rename_i hp
    simp [hp]

theorem object_null : object NULL = none :=
  rfl

theorem object_of_ne (hp : p ≠ NULL) : object p = some p :=
  if_neg hp

theorem slot_of_some (member : MyHashIter -> Ptr) (hp : heap p = some iter) :
    slot member heap p = object (member iter) := by
  rw [slot, hp, Option.bind_some]

theorem slot_of_none (member : MyHashIter -> Ptr) (hp : heap p = none) :
    slot member heap p = none := by
  rw [slot, hp, Option.bind_none]

theorem slot_update (member : MyHashIter -> Ptr) (heap : Heap) (p : Ptr)
    (new : Option MyHashIter) : slot member (Function.update heap p new) =
      Function.update (slot member heap) p (new.bind fun iter => object (member iter)) := by
  funext q
  cases eq_or_ne q p with
  | inl heq => rw [heq, slot, Function.update_self, Function.update_self]
  | inr hne => rw [slot, Function.update_of_ne hne, Function.update_of_ne hne, slot]

theorem slot_congr (hdata : SameData heap heap') (member : MyHashIter -> Ptr)
    (hmember : forall iter, member iter.bare = member iter) :
    slot member heap' = slot member heap := by
  funext p
  cases hp : heap p with
  | none => rw [slot_of_none member hp, slot_of_none member (hdata.none_iff.mpr hp)]
  | some iter =>
      rcases hdata.exists_iter hp with ⟨iter', hp', hbare⟩
      rw [slot_of_some member hp, slot_of_some member hp', ← hmember iter', hbare, hmember]

theorem keySlots_congr (hdata : SameData heap heap') :
    slot MyHashIter.key heap' = slot MyHashIter.key heap :=
  slot_congr hdata MyHashIter.key fun _ => rfl

theorem valueSlots_congr (hdata : SameData heap heap') :
    slot MyHashIter.value heap' = slot MyHashIter.value heap :=
  slot_congr hdata MyHashIter.value fun _ => rfl

theorem EntryState.congr {iter' : MyHashIter} (hbare : iter'.bare = iter.bare)
    (h : EntryState current p iter') : EntryState current p iter := by
  rcases bare_eq_iff.mp hbare with ⟨hkey, hvalue, _, hforeach⟩
  cases h with
  | kept hcurrent hflag hne => exact .kept hcurrent (hforeach ▸ hflag) (hkey ▸ hne)
  | visited hcurrent hflag hne => exact .visited hcurrent (hforeach ▸ hflag) (hkey ▸ hne)
  | deleted hcurrent hflag hnull hnone =>
      exact .deleted hcurrent (hforeach ▸ hflag) (hkey ▸ hnull) (hvalue ▸ hnone)

theorem Owners.congr (hdata : SameData heap heap') (h : Owners ops current heap keys values) :
    Owners ops current heap' keys values where
  keyLedger := by
    rw [keySlots_congr hdata]
    exact h.keyLedger
  valueLedger := by
    rw [valueSlots_congr hdata]
    exact h.valueLedger
  entry := by
    intro p iter hp
    rcases hdata.symm.exists_iter hp with ⟨iter', hp', hbare⟩
    exact (h.entry p iter' hp').congr hbare
  keyHash_eq := by
    intro hdup p iter hp hne
    rcases hdata.symm.exists_iter hp with ⟨iter', hp', hbare⟩
    rcases bare_eq_iff.mp hbare with ⟨hkey, _, hhash, _⟩
    rw [← hhash, ← hkey]
    exact h.keyHash_eq hdup p iter' hp' (hkey ▸ hne)
  used_ne := h.used_ne

theorem Owners.kept (h : Owners ops none heap keys values) (hp : heap p = some iter) :
    iter.foreach = 0 ∧ iter.key ≠ NULL := by
  cases h.entry p iter hp with
  | kept _ hflag hne => exact ⟨hflag, hne⟩
  | visited hcurrent _ _ => cases hcurrent
  | deleted hcurrent _ _ _ => cases hcurrent

/-!
## Events
-/

theorem count_map_eq_zero {mark : Ptr -> Mark Ptr} (hmark : forall r, mark r ≠ .freed p)
    (rs : List Ptr) : (rs.map mark).count (.freed p) = 0 := by
  refine List.count_eq_zero.mpr fun hmem => ?_
  rcases List.mem_map.mp hmem with ⟨r, _, heq⟩
  exact hmark r heq

theorem count_freed (hp : p ≠ NULL) (q : Ptr) :
    ((object q).toList.map Mark.freed).count (.freed p) = if q = p then 1 else 0 := by
  cases eq_or_ne q NULL with
  | inl hnull =>
      rw [hnull, object_null, if_neg hp.symm]
      rfl
  | inr hne =>
      rw [object_of_ne hne, Option.toList_some, List.map_singleton, List.count_singleton]
      simp

theorem count_keyMarks (hp : p ≠ NULL) (events : List Event) :
    (events.flatMap keyMarks).count (.freed p) = events.count (.keyFree p) := by
  induction events with
  | nil => rfl
  | cons event events ih =>
      rw [List.flatMap_cons, List.count_append, ih, List.count_cons, Nat.add_comm]
      congr 1
      cases event with
      | keyDup key copy => exact count_map_eq_zero (by simp) _
      | keyFree key => simpa [keyMarks] using count_freed hp key
      | valueDup value copy => rfl
      | valueFree value => rfl
      | free iter => rfl

theorem count_valueMarks (hp : p ≠ NULL) (events : List Event) :
    (events.flatMap valueMarks).count (.freed p) = events.count (.valueFree p) := by
  induction events with
  | nil => rfl
  | cons event events ih =>
      rw [List.flatMap_cons, List.count_append, ih, List.count_cons, Nat.add_comm]
      congr 1
      cases event with
      | keyDup key copy => rfl
      | keyFree key => rfl
      | valueDup value copy =>
          rw [valueMarks, List.count_append, count_map_eq_zero (by simp),
            count_map_eq_zero (by simp)]
          rfl
      | valueFree value => simpa [valueMarks] using count_freed hp value
      | free iter => rfl

theorem Noted.events {log : List Event} (h : Noted log keys values) (events : List Event)
    {keys' values' : List (Mark Ptr)}
    (hkeys : forall k, keys'.count (.freed k) = keys.count (.freed k))
    (hvalues : forall v, values'.count (.freed v) = values.count (.freed v)) :
    Noted (events ++ log) (events.flatMap keyMarks ++ keys')
      (events.flatMap valueMarks ++ values') where
  keys_count := by
    intro k hk
    rw [List.count_append, List.count_append, count_keyMarks hk, hkeys, h.keys_count k hk]
  values_count := by
    intro v hv
    rw [List.count_append, List.count_append, count_valueMarks hv, hvalues, h.values_count v hv]

/-!
## Comparisons
-/

theorem exists_of_mem_comparedEntries {fuel : Nat} {pre : Ptr}
    (h : p ∈ comparedEntries ops heap key fuel pre) : exists iter, heap p = some iter := by
  induction fuel generalizing pre with
  | zero => cases h
  | succ fuel ih =>
      rw [comparedEntries] at h
      split at h
      · cases h
      · cases hpre : heap pre with
        | none =>
            rw [hpre] at h
            cases h
        | some iter =>
            simp only [hpre, Option.elim_some] at h
            split at h
            · rw [List.mem_singleton.mp h]
              exact ⟨iter, hpre⟩
            · cases h with
              | head => exact ⟨iter, hpre⟩
              | tail _ h => exact ih h

theorem Owners.compared (h : Owners ops current heap keys values) {compared : List Ptr}
    (hcompared : forall p, p ∈ compared -> exists iter, heap p = some iter ∧ iter.key ≠ NULL) :
    Owners ops current heap
      ((compared.reverse.map (keyAt heap)).map .used ++ keys) values := by
  have hkeyAt : forall k, k ∈ compared.reverse.map (keyAt heap) ->
      k ≠ NULL ∧ exists p, slot MyHashIter.key heap p = some k := by
    intro k hk
    rcases List.mem_map.mp hk with ⟨p, hp, hpk⟩
    rcases hcompared p (List.mem_reverse.mp hp) with ⟨iter, hiter, hne⟩
    have hkey : keyAt heap p = iter.key := by
      rw [keyAt, hiter, Option.elim_some]
    rw [hkey] at hpk
    subst hpk
    exact ⟨hne, p, (slot_of_some MyHashIter.key hiter).trans (object_of_ne hne)⟩
  refine ⟨h.keyLedger.usedAll fun k hk => ?_, h.valueLedger, h.entry, h.keyHash_eq, ?_⟩
  · rcases (hkeyAt k hk).right with ⟨p, hp⟩
    exact h.keyLedger.live hp
  · intro hmem
    rcases List.mem_append.mp hmem with hmem | hmem
    · rcases List.mem_map.mp hmem with ⟨k, hk, hnull⟩
      exact (hkeyAt k hk).left (Mark.used.inj hnull)
    · exact h.used_ne hmem

/-!
## Changes of the entries
-/

theorem used_notMem_append {mark : Ptr -> Mark Ptr} (hmark : forall r, mark r ≠ .used p)
    (rs : List Ptr) (h : Mark.used p ∉ keys) : Mark.used p ∉ rs.map mark ++ keys := by
  intro hmem
  rcases List.mem_append.mp hmem with hmem | hmem
  · rcases List.mem_map.mp hmem with ⟨r, _, heq⟩
    exact hmark r heq
  · exact h hmem

theorem Owners.made (h : Owners ops current heap keys values) (madeKeys madeValues : List Ptr) :
    Owners ops current heap (madeKeys.map .made ++ keys) (madeValues.map .made ++ values) where
  keyLedger := h.keyLedger.madeAll madeKeys
  valueLedger := h.valueLedger.madeAll madeValues
  entry := h.entry
  keyHash_eq := h.keyHash_eq
  used_ne := used_notMem_append (by simp) madeKeys h.used_ne

theorem Owners.freed (h : Owners ops current heap keys values) (hp : heap p = some iter)
    {new : Option MyHashIter} (hnew : new = none ∨ current = some p ∧ new = some iter.cleared) :
    Owners ops current (Function.update heap p new)
      ((object iter.key).toList.map .freed ++ keys)
      ((object iter.value).toList.map .freed ++ values) := by
  have hslot : forall member : MyHashIter -> Ptr, member iter.cleared = NULL ->
      slot member (Function.update heap p new) = Function.update (slot member heap) p none := by
    intro member hmember
    rw [slot_update]
    rcases hnew with rfl | ⟨_, rfl⟩
    · rfl
    · rw [Option.bind_some, hmember, object_null]
  have hcases : forall q other, Function.update heap p new q = some other ->
      heap q = some other ∨ current = some q ∧ other = iter.cleared := by
    intro q other hq
    rcases hnew with hnone | ⟨hcurrent, hcleared⟩
    · rw [hnone] at hq
      exact Or.inl (update_none_cases hq).right
    · rw [hcleared] at hq
      rcases update_some_cases hq with ⟨hqp, hother⟩ | ⟨_, hq⟩
      · exact Or.inr ⟨hqp ▸ hcurrent, hother⟩
      · exact Or.inl hq
  refine ⟨?_, ?_, ?_, ?_, ?_⟩
  · rw [hslot MyHashIter.key rfl]
    exact h.keyLedger.freedOption (slot_of_some MyHashIter.key hp)
  · rw [hslot MyHashIter.value rfl]
    exact h.valueLedger.freedOption (slot_of_some MyHashIter.value hp)
  · intro q other hq
    rcases hcases q other hq with hq | ⟨hcurrent, hother⟩
    · exact h.entry q other hq
    · rw [hother]
      exact .deleted hcurrent rfl rfl rfl
  · intro hdup q other hq hkey
    rcases hcases q other hq with hq | ⟨_, hother⟩
    · exact h.keyHash_eq hdup q other hq hkey
    · rw [hother] at hkey
      exact absurd rfl hkey
  · exact used_notMem_append (by simp) _ h.used_ne

theorem Owners.write (h : Owners ops current heap keys values) (hp : heap p = some iter)
    (iter' : MyHashIter) (hkey : iter'.key = iter.key) (hhash : iter'.keyHash = iter.keyHash)
    {current' : Option Ptr} {values' : List (Mark Ptr)}
    (hvalues : Ledger values'
      (Function.update (slot MyHashIter.value heap) p (object iter'.value)))
    (hself : EntryState current' p iter')
    (hothers : forall q other, q ≠ p -> heap q = some other -> EntryState current' q other) :
    Owners ops current' (Function.update heap p (some iter')) keys values' where
  keyLedger := by
    rw [slot_update, Option.bind_some, hkey, ← slot_of_some MyHashIter.key hp,
      Function.update_eq_self]
    exact h.keyLedger
  valueLedger := by
    rw [slot_update]
    exact hvalues
  entry := by
    intro q other hq
    rcases update_some_cases hq with ⟨hqp, hother⟩ | ⟨hqp, hq⟩
    · rw [hqp, hother]
      exact hself
    · exact hothers q other hqp hq
  keyHash_eq := by
    intro hdup q other hq hne
    rcases update_some_cases hq with ⟨_, hother⟩ | ⟨_, hq⟩
    · rw [hother, hkey] at hne ⊢
      exact hhash.trans (h.keyHash_eq hdup p iter hp hne)
    · exact h.keyHash_eq hdup q other hq hne
  used_ne := h.used_ne

theorem Owners.flag (h : Owners ops current heap keys values) (hp : heap p = some iter)
    {flag : Nat} {current' : Option Ptr}
    (hself : EntryState current' p { iter with foreach := flag })
    (hothers : forall q other, q ≠ p -> heap q = some other -> EntryState current' q other) :
    Owners ops current' (Function.update heap p (some { iter with foreach := flag })) keys
      values := by
  refine h.write hp { iter with foreach := flag } rfl rfl ?_ hself hothers
  rw [← slot_of_some MyHashIter.value hp, Function.update_eq_self]
  exact h.valueLedger

theorem Owners.add (h : Owners ops none heap keys values) (hp : heap p = none)
    (hkey : iter.key ≠ NULL) (hvalue : iter.value = NULL) (hflag : iter.foreach = 0)
    (hhash : ops.keyDup = false -> iter.keyHash = ops.hash iter.key)
    (hlive : Live iter.key keys) (hnew : forall q, slot MyHashIter.key heap q ≠ some iter.key) :
    Owners ops none (Function.update heap p (some iter)) (.stored iter.key :: keys) values where
  keyLedger := by
    rw [slot_update, Option.bind_some, object_of_ne hkey]
    exact h.keyLedger.stored hlive fun q _ => hnew q
  valueLedger := by
    rw [slot_update, Option.bind_some, hvalue, object_null,
      ← slot_of_none MyHashIter.value hp, Function.update_eq_self]
    exact h.valueLedger
  entry := by
    intro q other hq
    rcases update_some_cases hq with ⟨_, hother⟩ | ⟨_, hq⟩
    · rw [hother]
      exact .kept nofun hflag hkey
    · exact h.entry q other hq
  keyHash_eq := by
    intro hdup q other hq hne
    rcases update_some_cases hq with ⟨_, hother⟩ | ⟨_, hq⟩
    · rw [hother]
      exact hhash hdup
    · exact h.keyHash_eq hdup q other hq hne
  used_ne := by
    intro hmem
    cases hmem with
    | tail _ hmem => exact h.used_ne hmem

end ChainedHash
end MyLibs
