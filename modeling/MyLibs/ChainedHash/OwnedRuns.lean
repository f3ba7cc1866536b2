import MyLibs.ChainedHash.Owners

/-!
# Nothing is freed twice

What every step of a careful caller does to the ledgers.
-/

namespace MyLibs
namespace ChainedHash

open Foundation

variable {τ : Type} {s s' : State τ} {hash hash' looked : MyHash} {heap : Heap}
  {events : List Event} {compared : List Ptr} {walk : Walk τ} {p key ret value : Ptr}
  {HASH_GROW_STEP : Nat} {outcome : Outcome} {ops : MyHashOps}

/-!
## Events
-/

theorem Leaves.newEvents_eq (h : Leaves hash hash' heap events) :
    newEvents hash hash' = events := by
  rw [newEvents, h.log_eq, List.length_append, Nat.add_sub_cancel, List.take_left]

theorem newEvents_self (hash : MyHash) : newEvents hash hash = [] := by
  rw [newEvents, Nat.sub_self, List.take_zero]

theorem deleteEvents_keyMarks (hkey : ops.keyFree = true) (hvalue : ops.valueFree = true)
    (iter : MyHashIter) :
    (deleteEvents ops iter).flatMap keyMarks = (object iter.key).toList.map .freed := by
  simp [deleteEvents, eventIf, hkey, hvalue, keyMarks]

theorem deleteEvents_valueMarks (hkey : ops.keyFree = true) (hvalue : ops.valueFree = true)
    (iter : MyHashIter) :
    (deleteEvents ops iter).flatMap valueMarks = (object iter.value).toList.map .freed := by
  simp [deleteEvents, eventIf, hkey, hvalue, valueMarks]

theorem keyDup_keyMarks (set : Bool) (key copy : Ptr) :
    (eventIf set (.keyDup key copy)).flatMap keyMarks =
      (if set then (object copy).toList else []).map .made := by
  cases set with
  | false => rfl
  | true => exact List.append_nil _

theorem Noted.after (h : Noted s.hash.log s.keys s.values)
    (hleaves : Leaves s.hash hash' heap events) (compared : List Ptr) (walk : Walk τ) :
    Noted hash'.log (s.after compared hash' walk).keys (s.after compared hash' walk).values := by
  rw [State.after, hleaves.log_eq, hleaves.newEvents_eq]
  refine h.events events (fun k => ?_) fun _ => rfl
  rw [List.count_append, count_map_eq_zero (by simp), Nat.zero_add]

theorem Sound.after (h : Sound s) (hleaves : Leaves s.hash hash' heap events)
    (howners : Owners s.hash.ops walk.current heap
      (events.flatMap keyMarks ++ ((compared.reverse.map (keyAt s.hash.heap)).map .used ++ s.keys))
      (events.flatMap valueMarks ++ s.values)) : Sound (s.after compared hash' walk) where
  joined := hleaves.joined
  noted := h.noted.after hleaves compared walk
  keyFree := (congrArg MyHashOps.keyFree hleaves.ops_eq).trans h.keyFree
  valueFree := (congrArg MyHashOps.valueFree hleaves.ops_eq).trans h.valueFree
  owners := by
    have hafter := howners.congr hleaves.data
    rw [← hleaves.newEvents_eq, ← hleaves.ops_eq] at hafter
    exact hafter

theorem Sound.searched (h : Sound s)
    (hkeys : forall p iter, p ∈ compared -> s.hash.heap p = some iter -> iter.key ≠ NULL)
    (hentries : forall p, p ∈ compared -> exists iter, s.hash.heap p = some iter) :
    Owners s.hash.ops s.walk.current s.hash.heap
      ((compared.reverse.map (keyAt s.hash.heap)).map .used ++ s.keys) s.values := by
  refine h.owners.compared fun p hp => ?_
  rcases hentries p hp with ⟨iter, hiter⟩
  exact ⟨iter, hiter, hkeys p iter hp hiter⟩

theorem exists_of_mem_deleteCompares (hp : p ∈ deleteCompares hash key) :
    exists iter, hash.heap p = some iter :=
  exists_of_mem_comparedEntries hp

theorem exists_of_mem_lookupCompares (hp : p ∈ lookupCompares hash key) :
    exists iter, hash.heap p = some iter := by
  rw [lookupCompares] at hp
  split at hp
  · cases hp
  · exact exists_of_mem_deleteCompares hp

/-!
## Deletion
-/

theorem Sound.released (h : Sound s)
    (hcompared : Owners s.hash.ops s.walk.current s.hash.heap
      ((compared.reverse.map (keyAt s.hash.heap)).map .used ++ s.keys) s.values)
    {iter : MyHashIter} (hp : s.hash.heap p = some iter) {new : Option MyHashIter}
    (hnew : new = none ∨ s.walk.current = some p ∧ new = some iter.cleared)
    (hleaves : Leaves s.hash hash' (Function.update s.hash.heap p new) events)
    (hkeys : events.flatMap keyMarks = (object iter.key).toList.map .freed)
    (hvalues : events.flatMap valueMarks = (object iter.value).toList.map .freed)
    (hwalk : forall q other, Function.update s.hash.heap p new q = some other ->
      EntryState s.walk.current q other -> EntryState walk.current q other) :
    Sound (s.after compared hash' walk) := by
  have hfreed := hcompared.freed hp hnew
  refine h.after hleaves ?_
  rw [hkeys, hvalues]
  exact ⟨hfreed.keyLedger, hfreed.valueLedger,
    fun q other hq => hwalk q other hq (hfreed.entry q other hq), hfreed.keyHash_eq,
    hfreed.used_ne⟩

theorem Sound.deleted (h : Sound s)
    (hcompared : Owners s.hash.ops s.walk.current s.hash.heap
      ((compared.reverse.map (keyAt s.hash.heap)).map .used ++ s.keys) s.values)
    (hcall : myHashIterDelete s.hash p = some hash') (hwalk : walk.current = s.walk.current) :
    Sound (s.after compared hash' walk) := by
  have hkeys := deleteEvents_keyMarks h.keyFree h.valueFree
  have hvalues := deleteEvents_valueMarks h.keyFree h.valueFree
  have hsame : forall q other, EntryState s.walk.current q other ->
      EntryState walk.current q other := by
    intro q other hstate
    rwa [hwalk]
  cases myHashIterDelete_cases h.joined hcall with
  | none _ =>
      refine h.after (Leaves.refl h.joined) ?_
      rw [hwalk]
      exact hcompared
  | @deferred _ iter _ hp hflag hleaves =>
      have hcurrent : s.walk.current = some p := by
        cases h.owners.entry p iter hp with
        | kept _ hzero _ => exact absurd hzero hflag
        | visited hcurrent _ _ => exact hcurrent
        | deleted hcurrent _ _ _ => exact hcurrent
      exact h.released hcompared hp (Or.inr ⟨hcurrent, rfl⟩) hleaves (hkeys iter) (hvalues iter)
        fun q other _ => hsame q other
  | @removed _ iter _ hp _ hleaves =>
      exact h.released hcompared hp (Or.inl rfl) hleaves (hkeys iter) (hvalues iter)
        fun q other _ => hsame q other

theorem Sound.delete (h : Sound s)
    (hkeys : forall p iter, p ∈ deleteCompares s.hash key -> s.hash.heap p = some iter ->
      iter.key ≠ NULL)
    (hcall : myHashDelete s.hash key = some hash') (hwalk : walk.current = s.walk.current) :
    Sound (s.after (deleteCompares s.hash key) hash' walk) := by
  simp only [myHashDelete, Option.bind_eq_bind, Option.bind_eq_some_iff] at hcall
  rcases hcall with ⟨iter, _, hdelete⟩
  exact h.deleted (h.searched hkeys fun _ => exists_of_mem_deleteCompares) hdelete hwalk

theorem Sound.lookup (h : Sound s)
    (hkeys : forall p iter, p ∈ lookupCompares s.hash key -> s.hash.heap p = some iter ->
      iter.key ≠ NULL)
    (hwalk : walk.current = s.walk.current) :
    Sound (s.after (lookupCompares s.hash key) s.hash walk) := by
  refine h.after (Leaves.refl h.joined) ?_
  rw [hwalk]
  exact h.searched hkeys fun _ => exists_of_mem_lookupCompares

/-!
## Insertion
-/

theorem Joined.lookup_ne (h : Joined hash) {iter : MyHashIter} (hp : hash.heap p = some iter)
    (hkey : iter.key ≠ NULL) (hhash : iter.keyHash = hash.ops.hash iter.key)
    (hself : hash.ops.compare iter.key iter.key = 0) :
    myHashLookup hash iter.key ≠ some NULL := by
  intro hlookup
  rw [myHashLookup, if_neg hkey] at hlookup
  rcases h.findKey_bucket iter.key with ⟨q, hfind, hq⟩
  rw [hlookup] at hfind
  cases hfind
  cases hq with
  | inl habsent =>
      exact habsent.right p iter hp (congrArg (HASH_INDEX · hash.size) hhash) hself
  | inr hentry =>
      rcases hentry with ⟨entry, hnull, _⟩
      rw [h.null_none] at hnull
      cases hnull

theorem LookaddCases.leaves (h : Chained hash)
    (hcases : LookaddCases hash key outcome ret looked) : exists heap events,
      Leaves hash looked heap events ∧
      slot MyHashIter.value heap = slot MyHashIter.value hash.heap ∧
        events.flatMap valueMarks = [] := by
  cases hcases with
  | refused _ => exact ⟨_, _, Leaves.refl h.joined, rfl, rfl⟩
  | found _ _ _ => exact ⟨_, _, Leaves.refl h.joined, rfl, rfl⟩
  | added _ _ _ hfree hleaves =>
      refine ⟨_, _, hleaves, ?_, ?_⟩
      · rw [slot_update]
        exact Function.update_eq_self_iff.mpr (slot_of_none MyHashIter.value hfree).symm
      · rw [eventIf]
        split
        · rfl
        · rfl

theorem GivesKey.live (hgives : GivesKey s key outcome) (hjoined : Joined s.hash)
    (howners : Owners s.hash.ops s.walk.current s.hash.heap s.keys s.values) (hkey : key ≠ NULL)
    (hlookup : myHashLookup s.hash key = some NULL) {marks : List (Mark Ptr)}
    (hmarks : forall k, Live k s.keys -> Live k marks) :
    (addedEntry s.hash.ops key outcome).key ≠ NULL ∧
      Live (addedEntry s.hash.ops key outcome).key
        ((eventIf s.hash.ops.keyDup (.keyDup key outcome.keyCopy)).flatMap keyMarks ++ marks) ∧
      forall q, slot MyHashIter.key s.hash.heap q ≠
        some (addedEntry s.hash.ops key outcome).key := by
  cases hdup : s.hash.ops.keyDup with
  | true =>
      rw [GivesKey, if_pos hdup] at hgives
      simp only [addedEntry, hdup, if_true]
      refine ⟨hgives.left, ?_, hgives.right⟩
      simp only [eventIf, if_true, List.flatMap_cons, List.flatMap_nil, List.append_nil, keyMarks]
      exact live_made (object_of_ne hgives.left)
  | false =>
      rw [GivesKey, if_neg (by simp [hdup])] at hgives
      simp only [addedEntry, hdup, Bool.false_eq_true, if_false]
      refine ⟨hkey, hmarks key hgives.left, fun q hq => ?_⟩
      rcases hgives.right with hself | hnew
      · rcases Option.bind_eq_some_iff.mp hq with ⟨iter, hiter, hobject⟩
        rcases object_eq_some_iff.mp hobject with ⟨heq, hne⟩
        have hhash := howners.keyHash_eq hdup q iter hiter hne
        rw [← heq] at hself hlookup
        exact hjoined.lookup_ne hiter hne hhash hself hlookup
      · exact hnew q hq

theorem Sound.lookadd (h : Sound s)
    {used : List Ptr} (hused : Owners s.hash.ops none s.hash.heap (used.map .used ++ s.keys)
      s.values)
    (hgives : MakesEntry s.hash key outcome -> GivesKey s key outcome)
    (hcases : LookaddCases s.hash key outcome ret looked) :
    Owners s.hash.ops none looked.heap
      ((storedKey s.hash ret looked).toList.map .stored ++
        ((newEvents s.hash looked).flatMap keyMarks ++ (used.map .used ++ s.keys))) s.values := by
  cases hcases with
  | refused _ =>
      rw [newEvents_self, storedKey, if_pos h.joined.null_none,
        slot_of_none MyHashIter.key h.joined.null_none]
      exact hused
  | found hkey hlookup hne =>
      rw [newEvents_self, storedKey]
      have hentry : s.hash.heap ret ≠ none := by
        rw [myHashLookup, if_neg hkey] at hlookup
        rcases h.joined.findKey_bucket key with ⟨q, hfind, hq⟩
        rw [hlookup] at hfind
        cases hfind
        rcases hq with hnull | ⟨entry, hentry, _⟩
        · exact absurd hnull.left hne
        · simp [hentry]
      rw [if_neg hentry]
      exact hused
  | added hkey hlookup hentry hfree hleaves =>
      rcases (hgives ⟨hkey, hlookup, hentry⟩).live h.joined h.owners hkey hlookup
        (fun k hk => (live_used used).mpr hk) with ⟨hne, hlive, hnew⟩
      have hmade : Owners s.hash.ops none s.hash.heap
          ((eventIf s.hash.ops.keyDup (.keyDup key outcome.keyCopy)).flatMap keyMarks ++
            (used.map .used ++ s.keys)) s.values := by
        rw [keyDup_keyMarks]
        exact hused.made _ []
      have hadded := hmade.add hfree hne rfl rfl (fun hdup => by simp [addedEntry, hdup]) hlive hnew
      rw [storedKey, if_pos hfree, hleaves.newEvents_eq, keySlots_congr hleaves.data,
        slot_of_some MyHashIter.key (Function.update_self ..), object_of_ne hne]
      exact hadded.congr hleaves.data

def setEvents (ops : MyHashOps) (value : Ptr) (outcome : Outcome) (old : Ptr) : List Event :=
  eventIf ops.valueDup (.valueDup value outcome.valueCopy) ++
    eventIf ops.valueFree (.valueFree old)

theorem setEvents_keyMarks (ops : MyHashOps) (value : Ptr) (outcome : Outcome) (old : Ptr) :
    (setEvents ops value outcome old).flatMap keyMarks = [] := by
  simp only [setEvents, eventIf]
  split <;> split <;> rfl

theorem setValue_ledger {values : List (Mark Ptr)} {slots : Ptr -> Option Ptr}
    (h : Ledger values slots) (hfree : ops.valueFree = true) {old : Ptr}
    (hp : slots p = object old)
    (hlive : forall v, object value = some v -> Live v values ∧ slots p ≠ some v)
    (hcopy : ops.valueDup = true -> forall q, q ≠ p -> slots q ≠ some outcome.valueCopy)
    (hgiven : ops.valueDup = false -> forall v, object value = some v ->
      forall q, slots q ≠ some v) :
    Ledger ((object (storedValue ops value outcome)).toList.map .stored ++
        ((setEvents ops value outcome old).flatMap valueMarks ++ values))
      (Function.update slots p (object (storedValue ops value outcome))) := by
  have hfreed := h.freedOption hp
  have hempty : Function.update slots p none p = none := Function.update_self ..
  have hothers : forall q r, (q ≠ p -> slots q ≠ some r) ->
      Function.update slots p none q ≠ some r := by
    intro q r hne
    cases eq_or_ne q p with
    | inl heq => simp [heq]
    | inr hqp =>
        rw [Function.update_of_ne hqp]
        exact hne hqp
  have hstill : forall v, object value = some v ->
      Live v ((object old).toList.map .freed ++ values) := by
    intro v hv
    refine live_freed ?_ (hlive v hv).left
    rw [← hp]
    exact (hlive v hv).right
  have hslots : Function.update (Function.update slots p none) p
      (object (storedValue ops value outcome)) =
      Function.update slots p (object (storedValue ops value outcome)) :=
    Function.update_idem ..
  rw [← hslots]
  cases hdup : ops.valueDup with
  | true =>
      -- the copy may be at the address that has been freed
      have hused := hfreed.usedAll fun v hv => hstill v (Option.mem_toList.mp hv)
      have hmade := hused.madeAll (object outcome.valueCopy).toList
      have hstored := hmade.storedOption hempty (fun r hr => live_made hr) fun q r hr =>
        hothers q r fun hqp => (object_eq_some_iff.mp hr).left ▸ hcopy hdup q hqp
      simpa [storedValue, setEvents, hdup, eventIf, hfree, valueMarks] using hstored
  | false =>
      have hstored := hfreed.storedOption hempty hstill fun q r hr =>
        hothers q r fun _ => hgiven hdup r hr q
      simpa [storedValue, setEvents, hdup, eventIf, hfree, valueMarks] using hstored

/-!
## Calls
-/

theorem Sound.idle_keys (h : Sound s) (hidle : s.walk.current = none) {iter : MyHashIter}
    (hp : s.hash.heap p = some iter) : iter.key ≠ NULL := by
  have howners := h.owners
  rw [hidle] at howners
  exact (howners.kept hp).right

theorem Sound.idle_chained (h : Sound s) (hidle : s.walk.current = none) : Chained s.hash := by
  have howners := h.owners
  rw [hidle] at howners
  exact h.joined.chained fun _ _ hp => (howners.kept hp).left

theorem Sound.idle_searched (h : Sound s) (hidle : s.walk.current = none) (key : Ptr) :
    Owners s.hash.ops none s.hash.heap
      (((lookupCompares s.hash key).reverse.map (keyAt s.hash.heap)).map .used ++ s.keys)
      s.values := by
  rw [← hidle]
  exact h.searched (fun _ _ _ hp => h.idle_keys hidle hp)
    fun _ => exists_of_mem_lookupCompares

theorem Sound.called (h : Sound s) (hidle : s.walk.current = none) {call : Call}
    (hleaves : Leaves s.hash hash' heap events)
    (howners : Owners s.hash.ops none hash'.heap
      ((storedKey s.hash ret hash').toList.map .stored ++ (events.flatMap keyMarks ++
        (((call.compares s.hash).reverse.map (keyAt s.hash.heap)).map .used ++ s.keys)))
      ((call.storedValue ret hash').toList.map .stored ++
        (events.flatMap valueMarks ++ s.values))) : Sound (s.called call ret hash') where
  joined := hleaves.joined
  noted := by
    have hafter : Noted hash'.log (s.after (call.compares s.hash) hash' s.walk).keys
        (s.after (call.compares s.hash) hash' s.walk).values :=
      h.noted.after hleaves _ s.walk
    refine ⟨fun k hk => ?_, fun v hv => ?_⟩
    · rw [State.called, List.count_append, count_map_eq_zero (by simp), Nat.zero_add]
      exact hafter.keys_count k hk
    · rw [State.called, List.count_append, count_map_eq_zero (by simp), Nat.zero_add]
      exact hafter.values_count v hv
  keyFree := (congrArg MyHashOps.keyFree hleaves.ops_eq).trans h.keyFree
  valueFree := (congrArg MyHashOps.valueFree hleaves.ops_eq).trans h.valueFree
  owners := by
    rw [← hleaves.newEvents_eq, ← hleaves.ops_eq, ← hidle] at howners
    exact howners

theorem Sound.called_lookadd (h : Sound s) (hidle : s.walk.current = none)
    (hgives : (Call.lookadd key outcome).Gives s)
    (hcases : LookaddCases s.hash key outcome ret hash') :
    Sound (s.called (.lookadd key outcome) ret hash') := by
  rcases hcases.leaves (h.idle_chained hidle) with ⟨heap, events, hleaves, _, hvalues⟩
  have howners := h.lookadd (h.idle_searched hidle key) hgives hcases
  refine h.called hidle hleaves ?_
  rw [hvalues]
  rw [hleaves.newEvents_eq] at howners
  exact howners

theorem GivesValue.slots (hgives : GivesValue s key value outcome) (hjoined : Joined s.hash)
    (hlooked : myHashLookup s.hash key = some ret ∨
      myHashLookup s.hash key = some NULL ∧ s.hash.heap ret = none) :
    (forall v, object value = some v ->
        Live v s.values ∧ slot MyHashIter.value s.hash.heap ret ≠ some v) ∧
      (s.hash.ops.valueDup = true -> forall q, q ≠ ret ->
        slot MyHashIter.value s.hash.heap q ≠ some outcome.valueCopy) ∧
      (s.hash.ops.valueDup = false -> forall v, object value = some v ->
        forall q, slot MyHashIter.value s.hash.heap q ≠ some v) := by
  cases hdup : s.hash.ops.valueDup with
  | true =>
      rw [GivesValue, if_pos hdup] at hgives
      rcases hgives with ⟨hvalue, hcopy⟩
      refine ⟨fun v hv => ⟨(hvalue v hv).left, ?_⟩, fun _ q hne hq => ?_, nofun⟩
      · cases hlooked with
        | inl hfound => exact (hvalue v hv).right ret hfound
        | inr hnew => simp [slot_of_none MyHashIter.value hnew.right]
      · have hfound := hcopy q hq
        cases hlooked with
        | inl hret =>
            rw [hret] at hfound
            exact hne (Option.some.inj hfound).symm
        | inr hnew =>
            rw [hnew.left] at hfound
            cases hfound
            rw [slot_of_none MyHashIter.value hjoined.null_none] at hq
            cases hq
  | false =>
      rw [GivesValue, if_neg (by simp [hdup])] at hgives
      exact ⟨fun v hv => ⟨(hgives v hv).left, (hgives v hv).right ret⟩, nofun,
        fun _ v hv => (hgives v hv).right⟩

theorem LookaddCases.finds (hcases : LookaddCases hash key outcome ret looked) (hret : ret ≠ NULL) :
    ReturnsEntry hash key outcome ∧ (myHashLookup hash key = some ret ∨
      myHashLookup hash key = some NULL ∧ hash.heap ret = none) := by
  cases hcases with
  | refused _ => exact absurd rfl hret
  | found hkey hlookup _ =>
      refine ⟨⟨hkey, Or.inl ?_⟩, Or.inl hlookup⟩
      rw [hlookup]
      exact fun heq => hret (Option.some.inj heq)
  | added hkey hlookup hentry hfree _ =>
      exact ⟨⟨hkey, Or.inr hentry⟩, Or.inr ⟨hlookup, hfree⟩⟩

theorem Sound.called_add (h : Sound s) (hidle : s.walk.current = none)
    (hgives : (Call.add key value outcome).Gives s)
    (hcases : AddCases s.hash key value outcome ret hash') :
    Sound (s.called (.add key value outcome) ret hash') := by
  have hchained := h.idle_chained hidle
  have hsearched := h.idle_searched hidle key
  cases hcases with
  | refused hlooked =>
      rcases hlooked.leaves hchained with ⟨heap, events, hleaves, _, hvalues⟩
      have howners := h.lookadd hsearched hgives.left hlooked
      refine h.called hidle hleaves ?_
      rw [hvalues, Call.storedValue, slot_of_none MyHashIter.value hleaves.joined.null_none]
      rw [hleaves.newEvents_eq] at howners
      exact howners
  | @set _ looked _ entry hlooked hret hentry hleaves =>
      rcases hlooked.leaves hchained with ⟨heap, events, hfirst, hsame, hvalues⟩
      rcases hlooked.finds hret with ⟨hreturns, hfinds⟩
      rcases (hgives.right hreturns).slots h.joined hfinds with ⟨hlive, hcopy, hgiven⟩
      have howners := h.lookadd hsearched hgives.left hlooked
      have hslots : slot MyHashIter.value looked.heap = slot MyHashIter.value s.hash.heap :=
        (valueSlots_congr hfirst.data).trans hsame
      rw [← hslots] at hlive hcopy hgiven
      have hledger := setValue_ledger howners.valueLedger h.valueFree
        (slot_of_some MyHashIter.value hentry) hlive hcopy hgiven
      have hself : EntryState none ret
          { entry with value := storedValue s.hash.ops value outcome } :=
        .kept nofun (howners.kept hentry).left (howners.kept hentry).right
      have hset := howners.write hentry
        { entry with value := storedValue s.hash.ops value outcome } rfl rfl hledger hself
        fun q other _ => howners.entry q other
      have hkey : storedKey s.hash ret hash' = storedKey s.hash ret looked := by
        rw [storedKey, storedKey, keySlots_congr hleaves.data,
          slot_of_some MyHashIter.key (Function.update_self ..), slot_of_some MyHashIter.key hentry]
      have hall : Leaves s.hash hash' _
          (setEvents s.hash.ops value outcome entry.value ++ events) :=
        hfirst.trans hleaves
      refine h.called hidle hall ?_
      rw [hkey, List.flatMap_append, setEvents_keyMarks, List.nil_append, List.flatMap_append,
        hvalues, List.append_nil, Call.storedValue, valueSlots_congr hleaves.data,
        slot_of_some MyHashIter.value (Function.update_self ..)]
      rw [hfirst.newEvents_eq] at hset
      exact hset.congr hleaves.data

theorem called_delete (s : State τ) (hnull : hash'.heap NULL = none) :
    s.called (.delete key) NULL hash' = s.after (deleteCompares s.hash key) hash' s.walk := by
  have hkey : storedKey s.hash NULL hash' = none := by
    rw [storedKey]
    split
    · exact slot_of_none MyHashIter.key hnull
    · rfl
  rw [State.called, hkey]
  rfl

theorem Sound.call (h : Sound s) (hidle : s.walk.current = none) {call : Call}
    (hdefined : call.Defined HASH_GROW_STEP s.hash) (hgives : call.Gives s)
    (hcall : call.apply HASH_GROW_STEP s.hash = some (ret, hash')) :
    Sound (s.called call ret hash') := by
  have hchained := h.idle_chained hidle
  cases call with
  | lookadd key outcome =>
      exact h.called_lookadd hidle hgives
        (myHashLookadd_cases hchained hdefined.right.left hdefined.right.right hcall)
  | add key value outcome =>
      exact h.called_add hidle hgives
        (myHashAdd_cases hchained hdefined.right.left hdefined.right.right hcall)
  | delete key =>
      rcases Option.map_eq_some_iff.mp hcall with ⟨deleted, hdelete, hpair⟩
      rcases Prod.mk.inj hpair with ⟨hret, hhash⟩
      subst hret hhash
      have hafter : Sound (s.after (deleteCompares s.hash key) deleted s.walk) :=
        h.delete (fun _ _ _ hp => h.idle_keys hidle hp) hdelete rfl
      have hnull : deleted.heap NULL = none := hafter.joined.null_none
      rw [called_delete s hnull]
      exact hafter

/-!
## Walks
-/

theorem Sound.withWalk (h : Sound s) (hwalk : walk.current = s.walk.current) :
    Sound { s with walk := walk } where
  joined := h.joined
  noted := h.noted
  keyFree := h.keyFree
  valueFree := h.valueFree
  owners := by
    rw [hwalk]
    exact h.owners

theorem Sound.arrive (h : Sound s) (hidle : s.walk.current = none)
    (hwrite : writeForeach s.hash p 1 = some hash') (hwalk : walk.current = some p) :
    Sound { s with hash := hash', walk := walk } := by
  have howners := h.owners
  rw [hidle] at howners
  rcases writeForeach_eq_some hwrite with ⟨iter, hp, hhash⟩
  subst hhash
  refine ⟨h.joined.write hp { iter with foreach := 1 } rfl rfl rfl, h.noted, h.keyFree,
    h.valueFree, ?_⟩
  rw [hwalk]
  have hself : EntryState (some p) p { iter with foreach := 1 } :=
    .visited rfl Nat.one_ne_zero (howners.kept hp).right
  refine howners.flag hp hself fun q other hne hq => ?_
  exact .kept (fun heq => hne (Option.some.inj heq).symm) (howners.kept hq).left
    (howners.kept hq).right

theorem Sound.leave (h : Sound s) (hcurrent : s.walk.current = some p)
    {next : Ptr} (hleave : leaveIter p s.hash = some (next, hash')) (hwalk : walk.current = none) :
    Sound (s.after [] hash' walk) := by
  have hothers : forall q other, q ≠ p -> s.hash.heap q = some other ->
      EntryState walk.current q other := by
    intro q other hne hq
    have hnot : s.walk.current ≠ some q := by
      rw [hcurrent]
      exact fun heq => hne (Option.some.inj heq).symm
    cases h.owners.entry q other hq with
    | kept _ hflag hkey => exact .kept (by simp [hwalk]) hflag hkey
    | visited heq _ _ => exact absurd heq hnot
    | deleted heq _ _ _ => exact absurd heq hnot
  rcases leaveIter_eq_some hleave with ⟨iter, hp, _, ⟨hzero, hdelete⟩ | ⟨hflag, hwrite⟩⟩
  · cases myHashIterDelete_cases h.joined hdelete with
    | none hnull => exact absurd hnull (ne_null_of_some h.joined.null_none hp)
    | @deferred _ iter' _ hp' hflag _ =>
        rw [hp] at hp'
        cases hp'
        exact absurd hzero hflag
    | @removed _ iter' _ hp' _ hleaves =>
        refine h.released h.owners hp' (Or.inl rfl) hleaves
          (deleteEvents_keyMarks h.keyFree h.valueFree iter')
          (deleteEvents_valueMarks h.keyFree h.valueFree iter') fun q other hq _ => ?_
        rcases update_none_cases hq with ⟨hqp, hq⟩
        exact hothers q other hqp hq
  · have hkey : iter.key ≠ NULL := by
      cases h.owners.entry p iter hp with
      | kept hnot _ _ => exact absurd hcurrent hnot
      | visited _ _ hkey => exact hkey
      | deleted _ hzero _ _ => exact absurd hzero hflag
    rcases writeForeach_eq_some hwrite with ⟨iter', hp', hhash⟩
    rw [hp] at hp'
    cases hp'
    have hjoined := h.joined.write hp { iter with foreach := 0 } rfl rfl rfl
    have hself : EntryState walk.current p { iter with foreach := 0 } :=
      .kept (by simp [hwalk]) rfl hkey
    have hleaves : Leaves s.hash hash'
        (Function.update s.hash.heap p (some { iter with foreach := 0 })) [] := by
      rw [hhash]
      exact ⟨hjoined, SameData.refl _, rfl, rfl, Or.inl rfl⟩
    exact h.after hleaves (h.owners.flag hp hself hothers)

theorem Sound.avoids (h : Sound s) {pre : Ptr} (hcurrent : s.walk.current = some pre)
    (havoids : Avoids s.hash pre compared) {iter : MyHashIter} (hmem : p ∈ compared)
    (hp : s.hash.heap p = some iter) : iter.key ≠ NULL := by
  cases h.owners.entry p iter hp with
  | kept _ _ hkey => exact hkey
  | visited _ _ hkey => exact hkey
  | deleted heq hzero _ _ =>
      rw [hcurrent] at heq
      cases heq
      exact absurd hmem (havoids iter hp hzero)

theorem Sound.visitStep (h : Sound s) {func : Visitor τ} {idx : Nat} {pre : Ptr}
    {visit : Visit τ} (hwalk : s.walk = .visit func idx pre visit)
    (hcareful : visit.Careful s.hash pre)
    (hstep : visitStep s func idx pre visit = some s') : Sound s' := by
  have hcurrent : s.walk.current = some pre := by
    rw [hwalk]
    rfl
  cases visit with
  | done ret own =>
      simp only [ChainedHash.visitStep, Option.bind_eq_bind, Option.bind_eq_some_iff] at hstep
      rcases hstep with ⟨⟨next, hash'⟩, hleave, hs⟩
      cases hs
      refine h.leave hcurrent hleave ?_
      split <;> rfl
  | lookup key next =>
      simp only [ChainedHash.visitStep, Option.bind_eq_bind, Option.bind_eq_some_iff] at hstep
      rcases hstep with ⟨p, _, hs⟩
      cases hs
      exact h.lookup (fun _ _ hmem hp => h.avoids hcurrent hcareful hmem hp) hcurrent.symm
  | delete key next =>
      simp only [ChainedHash.visitStep, Option.bind_eq_bind, Option.bind_eq_some_iff] at hstep
      rcases hstep with ⟨hash', hdelete, hs⟩
      cases hs
      exact h.delete (fun _ _ hmem hp => h.avoids hcurrent hcareful hmem hp) hdelete hcurrent.symm

theorem Sound.walkStep (h : Sound s)
    (hcareful : forall func idx pre visit, s.walk = .visit func idx pre visit ->
      visit.Careful s.hash pre)
    (hstep : walkStep s = some s') : Sound s' := by
  cases hwalk : s.walk with
  | idle =>
      rw [ChainedHash.walkStep, hwalk] at hstep
      cases hstep
  | bucket func idx own =>
      have hidle : s.walk.current = none := by
        rw [hwalk]
        rfl
      simp only [ChainedHash.walkStep, hwalk] at hstep
      split at hstep
      · cases hstep
        exact h.withWalk hidle.symm
      · cases hstep
        exact h.withWalk hidle.symm
  | entry func idx pre own =>
      have hidle : s.walk.current = none := by
        rw [hwalk]
        rfl
      simp only [ChainedHash.walkStep, hwalk] at hstep
      split at hstep
      · cases hstep
        exact h.withWalk hidle.symm
      · simp only [Option.bind_eq_bind, Option.bind_eq_some_iff] at hstep
        rcases hstep with ⟨hash', hwrite, iter, _, hs⟩
        cases hs
        exact h.arrive hidle hwrite rfl
  | visit func idx pre visit =>
      simp only [ChainedHash.walkStep, hwalk] at hstep
      exact h.visitStep hwalk (hcareful func idx pre visit hwalk) hstep

/-!
## Runs
-/

theorem ifIdle_eq_some {next : Option (State τ)} (h : s.ifIdle next = some s') :
    s.walk = .idle ∧ next = some s' := by
  rw [State.ifIdle] at h
  split at h
  · rename_i hidle
    exact ⟨hidle, h⟩
  · cases h

theorem Sound.move (h : Sound s) {move : Move τ} (hcareful : move.Careful HASH_GROW_STEP s)
    (hmove : move.apply HASH_GROW_STEP s = some s') : Sound s' := by
  cases move with
  | make p =>
      rw [Move.apply] at hmove
      split at hmove
      · cases hmove
      · cases hmove
        refine ⟨h.joined, ⟨fun k hk => ?_, fun v hv => ?_⟩, h.keyFree, h.valueFree,
          h.owners.made [p] [p]⟩
        · rw [List.count_cons_of_ne (by simp)]
          exact h.noted.keys_count k hk
        · rw [List.count_cons_of_ne (by simp)]
          exact h.noted.values_count v hv
  | calls call =>
      rcases ifIdle_eq_some hmove with ⟨hidle, hcall⟩
      simp only [Option.bind_eq_bind, Option.bind_eq_some_iff] at hcall
      rcases hcall with ⟨⟨ret, hash'⟩, hcall, hs⟩
      cases hs
      exact h.call (congrArg Walk.current hidle) hcareful.defined (hcareful.gives call rfl) hcall
  | lookup key =>
      rcases ifIdle_eq_some hmove with ⟨hidle, hcall⟩
      simp only [Option.bind_eq_bind, Option.bind_eq_some_iff] at hcall
      rcases hcall with ⟨p, _, hs⟩
      cases hs
      have hcurrent : s.walk.current = none := congrArg Walk.current hidle
      exact h.lookup (fun _ _ _ hp => h.idle_keys hcurrent hp) hcurrent.symm
  | foreach func own =>
      rcases ifIdle_eq_some hmove with ⟨hidle, hcall⟩
      cases hcall
      exact h.withWalk (congrArg Walk.current hidle).symm
  | walk =>
      exact h.walkStep (fun func idx pre visit => hcareful.visit func idx pre visit rfl) hmove

theorem sound_start (τ : Type) (size : Nat) (hkeyFree : ops.keyFree = true)
    (hvalueFree : ops.valueFree = true) : Sound (State.start τ size ops) where
  joined := (chained_init size ops).joined
  noted := ⟨fun _ _ => rfl, fun _ _ => rfl⟩
  keyFree := hkeyFree
  valueFree := hvalueFree
  owners :=
    { keyLedger := Ledger.empty
      valueLedger := Ledger.empty
      entry := nofun
      keyHash_eq := fun _ => nofun
      used_ne := nofun }

theorem sound_reaches {start : State τ} (h : Sound start)
    (hrun : Reaches HASH_GROW_STEP (Move.Careful HASH_GROW_STEP) start s) : Sound s := by
  induction hrun with
  | start => exact h
  | move _ _ hcareful hmove ih => exact ih.move hcareful hmove

/-- In every state that careful moves lead to: keys and values, unless null, are freed
while they are stored, so once for each time; only live values are copied; only live
keys, none of them null, are compared; and the entries hold live keys and values. -/
theorem hash_frees_once {size : Nat} (hkeyFree : ops.keyFree = true)
    (hvalueFree : ops.valueFree = true)
    (hrun : Reaches HASH_GROW_STEP (Move.Careful HASH_GROW_STEP) (State.start τ size ops) s) :
    (Proper s.keys ∧ forall k, k ≠ NULL ->
        s.hash.log.count (.keyFree k) = s.keys.count (.freed k) ∧
          s.hash.log.count (.keyFree k) <= s.keys.count (.stored k)) ∧
      (Proper s.values ∧ forall v, v ≠ NULL ->
        s.hash.log.count (.valueFree v) = s.values.count (.freed v) ∧
          s.hash.log.count (.valueFree v) <= s.values.count (.stored v)) ∧
      (forall p iter, s.hash.heap p = some iter ->
        (iter.key ≠ NULL -> Live iter.key s.keys) ∧
          (iter.value ≠ NULL -> Live iter.value s.values)) ∧
      Mark.used NULL ∉ s.keys := by
  have hsound := sound_reaches (sound_start τ size hkeyFree hvalueFree) hrun
  have howners := hsound.owners
  have hkeys := howners.keyLedger.proper
  have hvalues := howners.valueLedger.proper
  refine ⟨⟨hkeys, fun k hk => ?_⟩, ⟨hvalues, fun v hv => ?_⟩, fun p iter hp => ⟨?_, ?_⟩,
    howners.used_ne⟩
  · rw [← hsound.noted.keys_count k hk]
    exact ⟨rfl, (hkeys.freed_le_stored k).left⟩
  · rw [← hsound.noted.values_count v hv]
    exact ⟨rfl, (hvalues.freed_le_stored v).left⟩
  · intro hne
    exact howners.keyLedger.live
      ((slot_of_some MyHashIter.key hp).trans (object_of_ne hne))
  · intro hne
    exact howners.valueLedger.live
      ((slot_of_some MyHashIter.value hp).trans (object_of_ne hne))

/-!
## Short runs
-/

instance decidableCallDefined (HASH_GROW_STEP : Nat) (hash : MyHash) (call : Call) :
    Decidable (call.Defined HASH_GROW_STEP hash) :=
  match call with
  | .lookadd key outcome => inferInstanceAs (Decidable
      (HASH_INDEX (hash.ops.hash key) hash.size < 2 ^ 31 ∧
        (outcome.entry ≠ NULL -> hash.heap outcome.entry = none ∧ outcome.entry < 2 ^ 64) ∧
        (isFull hash = true -> outcome.buckets = true -> 0 < uint (HASH_GROW_STEP * hash.size))))
  | .add key _ outcome => inferInstanceAs (Decidable
      (HASH_INDEX (hash.ops.hash key) hash.size < 2 ^ 31 ∧
        (outcome.entry ≠ NULL -> hash.heap outcome.entry = none ∧ outcome.entry < 2 ^ 64) ∧
        (isFull hash = true -> outcome.buckets = true -> 0 < uint (HASH_GROW_STEP * hash.size))))
  | .delete key => inferInstanceAs (Decidable
      (HASH_INDEX (hash.ops.hash key) hash.size < 2 ^ 31))

instance decidableDefined (HASH_GROW_STEP : Nat) (s : State τ) (move : Move τ) :
    Decidable (move.Defined HASH_GROW_STEP s) :=
  match move with
  | .make _ => inferInstanceAs (Decidable True)
  | .calls call => inferInstanceAs (Decidable (call.Defined HASH_GROW_STEP s.hash))
  | .lookup key => inferInstanceAs (Decidable
      (HASH_INDEX (s.hash.ops.hash key) s.hash.size < 2 ^ 31))
  | .foreach _ _ => inferInstanceAs (Decidable True)
  | .walk => inferInstanceAs (Decidable (forall key, s.walk.searchedKey = some key ->
      HASH_INDEX (s.hash.ops.hash key) s.hash.size < 2 ^ 31))

def afterMoves (HASH_GROW_STEP : Nat) (s : State τ) : List (Move τ) -> Option (State τ)
  | [] => some s
  | move :: moves =>
      if move.Defined HASH_GROW_STEP s then
        (move.apply HASH_GROW_STEP s).bind fun s => afterMoves HASH_GROW_STEP s moves
      else
        none

theorem Reaches.moves {start : State τ} {moves : List (Move τ)}
    (hrun : Reaches HASH_GROW_STEP (Move.Defined HASH_GROW_STEP) start s)
    (hmoves : afterMoves HASH_GROW_STEP s moves = some s') :
    Reaches HASH_GROW_STEP (Move.Defined HASH_GROW_STEP) start s' := by
  induction moves generalizing s with
  | nil =>
      cases hmoves
      exact hrun
  | cons move moves ih =>
      rw [afterMoves] at hmoves
      split at hmoves
      · rename_i hdefined
        rcases Option.bind_eq_some_iff.mp hmoves with ⟨s₁, hmove, hrest⟩
        exact ih (hrun.move move hdefined hmove) hrest
      · cases hmoves

theorem exists_reaches {start : State τ} (P : State τ -> Prop) [DecidablePred P]
    (moves : List (Move τ))
    (h : (afterMoves HASH_GROW_STEP start moves).any (fun s => decide (P s)) = true) :
    exists s, Reaches HASH_GROW_STEP (Move.Defined HASH_GROW_STEP) start s ∧ P s := by
  cases hmoves : afterMoves HASH_GROW_STEP start moves with
  | none =>
      rw [hmoves] at h
      cases h
  | some s =>
      rw [hmoves] at h
      exact ⟨s, Reaches.start.moves hmoves, of_decide_eq_true h⟩

def freeingOps (valueDup : Bool) : MyHashOps :=
  { addressOps with keyFree := true, valueFree := true, valueDup := valueDup }

def oneBucketOps (keyDup : Bool) : MyHashOps :=
  { freeingOps false with hash := fun _ => 0, keyDup := keyDup }

def unequalOps : MyHashOps :=
  { oneBucketOps false with compare := fun k l => if k = l then 1 else 0 }

def deleteCurrent : Visitor Unit :=
  fun _ content _ => .delete content.1 fun _ => .done 0 ()

def deleteAndLook : Visitor Unit :=
  fun _ content _ => .delete content.1 fun _ => .lookup 20 fun _ _ => .done 0 ()

theorem hash_frees_once_deleted :
    exists s, Reaches 2 (Move.Careful 2) (State.start Unit 0 (freeingOps false)) s ∧
      s.hash.log.count (.keyFree 10) = 1 ∧ s.hash.log.count (.valueFree 6) = 1 ∧
      s.hash.log.count (.valueFree 6) <= s.values.count (.stored 6) ∧
      Mark.used NULL ∉ s.keys := by
  have hrun : exists s, Reaches 2 (Move.Careful 2) (State.start Unit 0 (freeingOps false)) s ∧
      s.hash.log.count (.keyFree 10) = 1 ∧ s.hash.log.count (.valueFree 6) = 1 := by
    refine ⟨_, Reaches.start
      |>.move (.make 10) ⟨trivial, nofun, nofun⟩ rfl
      |>.move (.make 6) ⟨trivial, nofun, nofun⟩ rfl
      |>.move (.calls (.add 10 6 ⟨100, true, 0, 0⟩)) ⟨by decide, ?_, nofun⟩ rfl
      |>.move (.foreach deleteCurrent ()) ⟨trivial, nofun, nofun⟩ rfl
      |>.move .walk ⟨by decide, nofun, nofun⟩ rfl
      |>.move .walk ⟨by decide, nofun, nofun⟩ rfl
      |>.move .walk ⟨by decide, nofun, ?_⟩ rfl
      |>.move .walk ⟨by decide, nofun, ?_⟩ rfl, by decide, by decide⟩
    · intro call hcall
      cases hcall
      refine ⟨fun _ => ?_, fun _ => ?_⟩
      · rw [GivesKey, if_neg (by decide)]
        exact ⟨by decide, Or.inl (by decide)⟩
      · rw [GivesValue, if_neg (by decide)]
        intro v hv
        cases hv
        exact ⟨by decide, nofun⟩
    · intro func idx pre visit _ hvisit
      cases hvisit
      intro iter hiter hzero
      cases hiter
      cases hzero
    · intro func idx pre visit _ hvisit
      cases hvisit
      trivial
  rcases hrun with ⟨s, hrun, hkey, hvalue⟩
  rcases hash_frees_once rfl rfl hrun with ⟨_, ⟨_, hvalues⟩, _, hused⟩
  exact ⟨s, hrun, hkey, hvalue, (hvalues 6 (by decide)).right, hused⟩

/-- Five runs about values and callbacks: a value is freed that is null; a value is stored
again under its key, and has been freed; the same with copies, of which the second one is
made of a freed value; one value is stored under two keys, one of which is deleted; and a
callback deletes the current entry and looks up a key, which is compared with null.

Four runs about keys: a freed key is added again; a key that does not equal itself is added
twice, and one of the entries is deleted; the copy of a key is null, with which the next key
is compared; and one copy is the key of two entries, one of which is deleted. -/
theorem hash_frees_null_and_twice :
    (exists s, Reaches 2 (Move.Defined 2) (State.start Unit 0 (freeingOps false)) s ∧
        Event.valueFree NULL ∈ s.hash.log) ∧
      (exists s, Reaches 2 (Move.Defined 2) (State.start Unit 0 (freeingOps false)) s ∧
        slot MyHashIter.value s.hash.heap 100 = some 6 ∧ ¬Live 6 s.values) ∧
      (exists s, Reaches 2 (Move.Defined 2) (State.start Unit 0 (freeingOps true)) s ∧
        exists rest, s.values = .stored 8 :: .made 8 :: .used 7 :: rest ∧ ¬Live 7 rest) ∧
      (exists s, Reaches 2 (Move.Defined 2) (State.start Unit 0 (freeingOps false)) s ∧
        slot MyHashIter.value s.hash.heap 101 = some 6 ∧ ¬Live 6 s.values) ∧
      (exists s, Reaches 2 (Move.Defined 2) (State.start Unit 0 (freeingOps false)) s ∧
        Mark.used NULL ∈ s.keys) ∧
      (exists s, Reaches 2 (Move.Defined 2) (State.start Unit 0 (freeingOps false)) s ∧
        slot MyHashIter.key s.hash.heap 101 = some 10 ∧ ¬Live 10 s.keys) ∧
      (exists s, Reaches 2 (Move.Defined 2) (State.start Unit 0 unequalOps) s ∧
        slot MyHashIter.key s.hash.heap 100 = some 10 ∧ ¬Live 10 s.keys) ∧
      (exists s, Reaches 2 (Move.Defined 2) (State.start Unit 0 (oneBucketOps true)) s ∧
        Mark.used NULL ∈ s.keys) ∧
      (exists s, Reaches 2 (Move.Defined 2) (State.start Unit 0 (oneBucketOps true)) s ∧
        slot MyHashIter.key s.hash.heap 100 = some 8 ∧ ¬Live 8 s.keys) := by
  refine ⟨exists_reaches _ [.make 10, .make 6, .calls (.add 10 6 ⟨100, true, 0, 0⟩)] (by decide),
    exists_reaches _ [.make 10, .make 6, .calls (.add 10 6 ⟨100, true, 0, 0⟩),
      .calls (.add 10 6 ⟨101, true, 0, 0⟩)] (by decide), ?_,
    exists_reaches _ [.make 10, .make 6, .calls (.add 10 6 ⟨100, true, 0, 0⟩),
      .make 11, .calls (.add 11 6 ⟨101, true, 0, 0⟩), .calls (.delete 10)] (by decide),
    exists_reaches _ [.make 10, .make 6, .calls (.add 10 6 ⟨100, true, 0, 0⟩),
      .foreach deleteAndLook (), .walk, .walk, .walk, .walk] (by decide),
    exists_reaches _ [.make 10, .calls (.add 10 NULL ⟨100, true, 0, 0⟩), .calls (.delete 10),
      .calls (.add 10 NULL ⟨101, true, 0, 0⟩)] (by decide),
    exists_reaches _ [.make 10, .make 11, .calls (.add 10 NULL ⟨100, true, 0, 0⟩),
      .calls (.add 10 NULL ⟨101, true, 0, 0⟩), .calls (.delete 11)] (by decide),
    exists_reaches _ [.make 10, .make 12, .calls (.add 10 NULL ⟨100, true, NULL, 0⟩),
      .calls (.add 12 NULL ⟨101, true, 9, 0⟩)] (by decide),
    exists_reaches _ [.make 10, .make 11, .calls (.add 10 NULL ⟨100, true, 8, 0⟩),
      .calls (.add 11 NULL ⟨101, true, 8, 0⟩), .calls (.delete 8)] (by decide)⟩
  have hcopies : exists s, Reaches 2 (Move.Defined 2) (State.start Unit 0 (freeingOps true)) s ∧
      s.values = .stored 8 :: .made 8 :: .used 7 :: s.values.drop 3 ∧
        ¬Live 7 (s.values.drop 3) :=
    exists_reaches _ [.make 10, .make 6, .calls (.add 10 6 ⟨100, true, 0, 7⟩),
      .calls (.add 10 7 ⟨101, true, 0, 8⟩)] (by decide)
  rcases hcopies with ⟨s, hrun, hvalues, hlive⟩
  exact ⟨s, hrun, s.values.drop 3, hvalues, hlive⟩

end ChainedHash
end MyLibs
