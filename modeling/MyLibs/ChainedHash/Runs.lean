import MyLibs.ChainedHash.Calls

/-!
# The chained hash table as a finite map

What the calls do to a map from keys to values, and that every run of a table
without callbacks does it.
-/

namespace MyLibs
namespace ChainedHash

def setClass (ops : MyHashOps) (key : Ptr) (value : Option Ptr) (map : Ptr -> Option Ptr) :
    Ptr -> Option Ptr :=
  fun k => if ops.compare key k = 0 then value else map k

inductive Call where
  | lookadd (key : Ptr) (outcome : Outcome)
  | add (key value : Ptr) (outcome : Outcome)
  | delete (key : Ptr)

def Call.onMap (ops : MyHashOps) (map : Ptr -> Option Ptr) : Call -> Ptr -> Option Ptr
  | .lookadd key outcome =>
      if key ≠ NULL ∧ map key = none ∧ outcome.entry ≠ NULL then
        setClass ops key (some NULL) map
      else
        map
  | .add key value outcome =>
      if key ≠ NULL ∧ (map key ≠ none ∨ outcome.entry ≠ NULL) then
        setClass ops key (some value) map
      else
        map
  | .delete key => setClass ops key none map

def mapAfter (ops : MyHashOps) (calls : List Call) : Ptr -> Option Ptr :=
  calls.foldl (Call.onMap ops) fun _ => none

def Call.apply (HASH_GROW_STEP : Nat) (hash : MyHash) : Call -> Option (Ptr × MyHash)
  | .lookadd key outcome => myHashLookadd HASH_GROW_STEP hash key outcome
  | .add key value outcome => myHashAdd HASH_GROW_STEP hash key value outcome
  | .delete key => (myHashDelete hash key).map fun hash => (NULL, hash)

/-- Allocation returns unused addresses, sizes stay below 2^31, and a key to
delete is given. -/
def Call.Allowed (HASH_GROW_STEP : Nat) (hash : MyHash) : Call -> Prop
  | .lookadd _ outcome => FreshEntry hash outcome ∧ GrowthFits HASH_GROW_STEP hash
  | .add _ _ outcome => FreshEntry hash outcome ∧ GrowthFits HASH_GROW_STEP hash
  | .delete key => key ≠ NULL

inductive Run (HASH_GROW_STEP : Nat) (start : MyHash) : List Call -> MyHash -> Prop
  | nil : Run HASH_GROW_STEP start [] start
  | snoc {calls : List Call} {hash hash' : MyHash} {call : Call} {ret : Ptr} :
      Run HASH_GROW_STEP start calls hash -> call.Allowed HASH_GROW_STEP hash ->
      call.apply HASH_GROW_STEP hash = some (ret, hash') ->
      Run HASH_GROW_STEP start (calls ++ [call]) hash'

theorem mapAfter_snoc (ops : MyHashOps) (calls : List Call) (call : Call) :
    mapAfter ops (calls ++ [call]) = call.onMap ops (mapAfter ops calls) := by
  rw [mapAfter, List.foldl_append]
  rfl

/-!
## What the entries map
-/

def Maps (ops : MyHashOps) (heap : Heap) (key value : Ptr) : Prop :=
  exists p entry, heap p = some entry ∧ ops.compare key entry.key = 0 ∧ entry.value = value

def Agrees (ops : MyHashOps) (heap : Heap) (map : Ptr -> Option Ptr) : Prop :=
  forall key, key ≠ NULL -> forall value, map key = some value <-> Maps ops heap key value

variable {ops : MyHashOps} {heap heap' : Heap} {map : Ptr -> Option Ptr} {key p : Ptr}

theorem Maps.congr (hdata : SameData heap heap') {value : Ptr} (h : Maps ops heap key value) :
    Maps ops heap' key value := by
  rcases h with ⟨p, entry, hp, hcompare, hvalue⟩
  rcases hdata.exists_iter hp with ⟨entry', hp', hbare⟩
  rcases bare_eq_iff.mp hbare with ⟨hkey, hvalue', _⟩
  rw [← hkey] at hcompare
  exact ⟨p, entry', hp', hcompare, hvalue'.trans hvalue⟩

theorem Agrees.congr (hdata : SameData heap heap') (h : Agrees ops heap map) :
    Agrees ops heap' map := by
  intro key hkey value
  rw [h key hkey value]
  exact ⟨fun hmaps => hmaps.congr hdata, fun hmaps => hmaps.congr hdata.symm⟩

theorem Agrees.absent_iff {hash : MyHash} (h : Agrees hash.ops hash.heap map)
    (hkey : key ≠ NULL) : map key = none <-> Absent hash key := by
  constructor
  · intro hnone p entry hp hcompare
    have hsome := (h key hkey entry.value).mpr ⟨p, entry, hp, hcompare, rfl⟩
    rw [hnone] at hsome
    cases hsome
  · intro habsent
    cases hvalue : map key with
    | none => rfl
    | some value =>
        rcases (h key hkey value).mp hvalue with ⟨p, entry, hp, hcompare, _⟩
        exact absurd hcompare (habsent p entry hp)

theorem MyHashOps.Lawful.compare_iff {entry : MyHashIter} (hkeys : ops.Lawful) (hkey : key ≠ NULL)
    (hentry : entry.key ≠ NULL) (hequal : ops.compare key entry.key = 0) {k : Ptr}
    (hk : k ≠ NULL) : ops.compare key k = 0 <-> ops.compare k entry.key = 0 := by
  constructor
  · intro hcompare
    exact hkeys.trans k key entry.key hk hkey hentry (hkeys.symm key k hkey hk hcompare) hequal
  · intro hcompare
    exact hkeys.trans key entry.key k hkey hentry hk hequal
      (hkeys.symm k entry.key hk hentry hcompare)

theorem Agrees.put (entry : MyHashIter) (h : Agrees ops heap map)
    (hkeys : ops.Lawful) (hkey : key ≠ NULL)
    (hentry : entry.key ≠ NULL) (hequal : ops.compare key entry.key = 0)
    (hothers : forall q other k, k ≠ NULL -> heap q = some other -> q ≠ p ->
      ops.compare k other.key = 0 -> ops.compare k entry.key ≠ 0)
    (hself : forall other k, k ≠ NULL -> heap p = some other -> ops.compare k other.key = 0 ->
      ops.compare k entry.key = 0) :
    Agrees ops (Function.update heap p (some entry))
      (setClass ops key (some entry.value) map) := by
  intro k hk value
  have hclass := hkeys.compare_iff hkey hentry hequal hk
  by_cases hcompare : ops.compare key k = 0
  · rw [setClass, if_pos hcompare]
    rw [hclass] at hcompare
    constructor
    · intro hvalue
      exact ⟨p, entry, Function.update_self .., hcompare, Option.some.inj hvalue⟩
    · rintro ⟨q, other, hq, hother, hvalue⟩
      rcases update_some_cases hq with ⟨_, hentry⟩ | ⟨hne, hq⟩
      · rw [← hvalue, hentry]
      · exact absurd hcompare (hothers q other k hk hq hne hother)
  · rw [setClass, if_neg hcompare, h k hk value]
    rw [hclass] at hcompare
    constructor
    · rintro ⟨q, other, hq, hother, hvalue⟩
      have hne : q ≠ p := by
        rintro rfl
        exact hcompare (hself other k hk hq hother)
      exact ⟨q, other, by rw [Function.update_of_ne hne]; exact hq, hother, hvalue⟩
    · rintro ⟨q, other, hq, hother, hvalue⟩
      rcases update_some_cases hq with ⟨_, hentry⟩ | ⟨_, hq⟩
      · exact absurd (hentry ▸ hother) hcompare
      · exact ⟨q, other, hq, hother, hvalue⟩

theorem Agrees.remove {entry : MyHashIter} (h : Agrees ops heap map) (hkeys : ops.Lawful)
    (hkeyed : Keyed ops heap) (hkey : key ≠ NULL) (hp : heap p = some entry)
    (hequal : ops.compare key entry.key = 0) :
    Agrees ops (Function.update heap p none) (setClass ops key none map) := by
  intro k hk value
  have hentry := hkeyed.key_ne p entry hp
  have hclass := hkeys.compare_iff hkey hentry hequal hk
  by_cases hcompare : ops.compare key k = 0
  · rw [setClass, if_pos hcompare]
    rw [hclass] at hcompare
    constructor
    · intro hvalue
      cases hvalue
    · rintro ⟨q, other, hq, hother, _⟩
      rcases update_none_cases hq with ⟨hne, hq⟩
      have hotherKey := hkeyed.key_ne q other hq
      have hback := hkeys.symm k other.key hk hotherKey hother
      exact absurd (hkeyed.keys_ne q p other entry hq hp
        (hkeys.trans _ k _ hotherKey hk hentry hback hcompare)) hne
  · rw [setClass, if_neg hcompare, h k hk value]
    rw [hclass] at hcompare
    constructor
    · rintro ⟨q, other, hq, hother, hvalue⟩
      have hne : q ≠ p := by
        rintro rfl
        rw [hp] at hq
        cases hq
        exact hcompare hother
      exact ⟨q, other, by rw [Function.update_of_ne hne]; exact hq, hother, hvalue⟩
    · rintro ⟨q, other, hq, hother, hvalue⟩
      exact ⟨q, other, (update_none_cases hq).right, hother, hvalue⟩

/-!
## One call
-/

variable {hash hash' : MyHash} {HASH_GROW_STEP : Nat} {outcome : Outcome}

structure Represents (hash : MyHash) (map : Ptr -> Option Ptr) : Prop where
  wellFormed : WellFormed hash
  agrees : Agrees hash.ops hash.heap map

theorem Represents.changed (hchanged : Changed hash hash' heap)
    (hagrees : Agrees hash.ops heap map) : Represents hash' map where
  wellFormed := hchanged.wellFormed
  agrees := by
    rw [hchanged.ops_eq]
    exact hagrees.congr hchanged.data

theorem Represents.agrees_new (h : Represents hash map) (hkeys : hash.ops.Lawful)
    (hkey : key ≠ NULL) (habsent : Absent hash key) (hfree : hash.heap p = none) :
    Agrees hash.ops (Function.update hash.heap p (some (newEntry hash.ops key)))
      (setClass hash.ops key (some NULL) map) := by
  refine Agrees.put (newEntry hash.ops key) h.agrees hkeys hkey hkey (hkeys.refl key hkey)
    ?_ ?_
  · intro q other k hk hq _ hother hcompare
    have hotherKey := h.wellFormed.keyed.key_ne q other hq
    exact habsent q other hq (hkeys.trans key k _ hkey hk hotherKey
      (hkeys.symm k key hk hkey hcompare) hother)
  · intro other k _ hp
    rw [hfree] at hp
    cases hp

theorem Represents.agrees_value {entry : MyHashIter} (h : Represents hash map)
    (hkeys : hash.ops.Lawful)
    (hkey : key ≠ NULL) (hp : hash.heap p = some entry)
    (hequal : hash.ops.compare key entry.key = 0) (value : Ptr) :
    Agrees hash.ops (Function.update hash.heap p (some { entry with value := value }))
      (setClass hash.ops key (some value) map) := by
  have hkeyed := h.wellFormed.keyed
  have hentry := hkeyed.key_ne p entry hp
  refine Agrees.put { entry with value := value } h.agrees hkeys hkey hentry hequal ?_ ?_
  · intro q other k hk hq hne hother hcompare
    have hotherKey := hkeyed.key_ne q other hq
    exact hne (hkeyed.keys_ne q p other entry hq hp (hkeys.trans _ k _ hotherKey hk hentry
      (hkeys.symm k _ hk hotherKey hother) hcompare))
  · intro other k _ hq hother
    rw [hp] at hq
    cases hq
    exact hother

theorem Represents.lookadd (h : Represents hash map) (hkeys : hash.ops.Lawful)
    (hplain : hash.ops.Plain) (hstep : 1 <= HASH_GROW_STEP)
    (hallowed : (Call.lookadd key outcome).Allowed HASH_GROW_STEP hash) :
    exists p hash', myHashLookadd HASH_GROW_STEP hash key outcome = some (p, hash') ∧
      hash'.ops = hash.ops ∧
      Represents hash' ((Call.lookadd key outcome).onMap hash.ops map) ∧
      if key ≠ NULL ∧ (map key ≠ none ∨ outcome.entry ≠ NULL) then
        EntryOf hash' key p
      else
        p = NULL := by
  cases eq_or_ne key NULL with
  | inl hnull =>
      subst hnull
      refine ⟨NULL, hash, myHashLookadd_null HASH_GROW_STEP hash outcome, rfl, ?_, ?_⟩
      · simpa [Call.onMap] using h
      · simp
  | inr hkey =>
      rcases absent_or_entryOf hash key with habsent | ⟨p, hp⟩
      · have hmap := (h.agrees.absent_iff hkey).mpr habsent
        cases eq_or_ne outcome.entry NULL with
        | inl hentry =>
            refine ⟨NULL, hash, myHashLookadd_failed h.wellFormed hkeys hkey habsent hentry,
              rfl, ?_, ?_⟩
            · simpa [Call.onMap, hentry] using h
            · simp [hmap, hentry]
        | inr hentry =>
            rcases myHashLookadd_added h.wellFormed hkeys hplain hstep hkey habsent hentry
              hallowed.left hallowed.right with ⟨hash', hlookadd, hchanged⟩
            refine ⟨outcome.entry, hash', hlookadd, hchanged.ops_eq, ?_, ?_⟩
            · rw [Call.onMap, if_pos ⟨hkey, hmap, hentry⟩]
              exact Represents.changed hchanged
                (h.agrees_new hkeys hkey habsent (hallowed.left hentry).left)
            · rw [if_pos ⟨hkey, Or.inr hentry⟩]
              rcases hchanged.data.exists_iter (Function.update_self ..) with
                ⟨entry, hp, hbare⟩
              refine ⟨entry, hp, ?_⟩
              rw [hchanged.ops_eq, (bare_eq_iff.mp hbare).left]
              exact hkeys.refl key hkey
      · have hmap : map key ≠ none := by
          rw [ne_eq, h.agrees.absent_iff hkey]
          exact fun habsent => habsent.not_entryOf hp
        refine ⟨p, hash, myHashLookadd_present h.wellFormed hkeys hkey hp, rfl, ?_, ?_⟩
        · simpa [Call.onMap, hmap] using h
        · rw [if_pos ⟨hkey, Or.inl hmap⟩]
          exact hp

theorem setClass_setClass (ops : MyHashOps) (key : Ptr) (value value' : Option Ptr)
    (map : Ptr -> Option Ptr) :
    setClass ops key value (setClass ops key value' map) = setClass ops key value map := by
  funext k
  by_cases hcompare : ops.compare key k = 0
  · simp [setClass, hcompare]
  · simp [setClass, hcompare]

theorem Represents.add (h : Represents hash map) (hkeys : hash.ops.Lawful)
    (hplain : hash.ops.Plain) (hstep : 1 <= HASH_GROW_STEP) {value : Ptr}
    (hallowed : (Call.add key value outcome).Allowed HASH_GROW_STEP hash) :
    exists p hash', myHashAdd HASH_GROW_STEP hash key value outcome = some (p, hash') ∧
      hash'.ops = hash.ops ∧
      Represents hash' ((Call.add key value outcome).onMap hash.ops map) := by
  rcases h.lookadd hkeys hplain hstep hallowed with ⟨p, hash₁, hlookadd, hops, hrep, hp⟩
  by_cases hadded : key ≠ NULL ∧ (map key ≠ none ∨ outcome.entry ≠ NULL)
  · rw [if_pos hadded] at hp
    rcases hp with ⟨entry, hentry, hequal⟩
    have hplain₁ : hash₁.ops.Plain := hops ▸ hplain
    have hkeys₁ : hash₁.ops.Lawful := hops ▸ hkeys
    rcases myHashAdd_of_lookadd hlookadd hrep.wellFormed hplain₁ hentry value with
      ⟨hash', hadd, hchanged⟩
    refine ⟨p, hash', hadd, hchanged.ops_eq.trans hops, ?_⟩
    have hvalue := Represents.changed hchanged
      (hrep.agrees_value hkeys₁ hadded.left hentry hequal value)
    rw [Call.onMap, if_pos hadded]
    rw [hops, Call.onMap] at hvalue
    split at hvalue
    · rw [setClass_setClass] at hvalue
      exact hvalue
    · exact hvalue
  · rw [if_neg hadded] at hp
    refine ⟨NULL, hash₁, ?_, hops, ?_⟩
    · rw [myHashAdd, hlookadd, hp]
      rfl
    · have hnot : ¬ (key ≠ NULL ∧ map key = none ∧ outcome.entry ≠ NULL) :=
        fun hfresh => hadded ⟨hfresh.left, Or.inr hfresh.right.right⟩
      rw [Call.onMap, if_neg hnot] at hrep
      rw [Call.onMap, if_neg hadded]
      exact hrep

theorem Represents.delete (h : Represents hash map) (hkeys : hash.ops.Lawful)
    (hplain : hash.ops.Plain) (hkey : key ≠ NULL) :
    exists hash', myHashDelete hash key = some hash' ∧ hash'.ops = hash.ops ∧
      Represents hash' ((Call.delete key).onMap hash.ops map) := by
  rcases absent_or_entryOf hash key with habsent | ⟨p, hp⟩
  · refine ⟨hash, myHashDelete_absent h.wellFormed hkeys hkey habsent, rfl, h.wellFormed, ?_⟩
    -- no key of the class was mapped before
    intro k hk value
    rw [Call.onMap, setClass]
    split
    · rename_i hcompare
      have hnone : map k = none := by
        rw [h.agrees.absent_iff hk]
        intro q other hq hother
        exact habsent q other hq (hkeys.trans key k _ hkey hk
          (h.wellFormed.keyed.key_ne q other hq) hcompare hother)
      rw [← h.agrees k hk value, hnone]
    · exact h.agrees k hk value
  · rcases myHashDelete_present h.wellFormed hkeys hplain hkey hp with ⟨hash', hdelete, hchanged⟩
    rcases hp with ⟨entry, hentry, hequal⟩
    exact ⟨hash', hdelete, hchanged.ops_eq, Represents.changed hchanged
      (h.agrees.remove hkeys h.wellFormed.keyed hkey hentry hequal)⟩

/-- Every call a caller may make returns, and does to the table what it does to
the map. -/
theorem Represents.step (h : Represents hash map) (hkeys : hash.ops.Lawful)
    (hplain : hash.ops.Plain) (hstep : 1 <= HASH_GROW_STEP) {call : Call}
    (hallowed : call.Allowed HASH_GROW_STEP hash) :
    exists p hash', call.apply HASH_GROW_STEP hash = some (p, hash') ∧
      hash'.ops = hash.ops ∧ Represents hash' (call.onMap hash.ops map) := by
  cases call with
  | lookadd key outcome =>
      rcases h.lookadd hkeys hplain hstep hallowed with ⟨p, hash', hcall, hops, hrep, _⟩
      exact ⟨p, hash', hcall, hops, hrep⟩
  | add key value outcome => exact h.add hkeys hplain hstep hallowed
  | delete key =>
      rcases h.delete hkeys hplain hallowed with ⟨hash', hcall, hops, hrep⟩
      exact ⟨NULL, hash', by rw [Call.apply, hcall]; rfl, hops, hrep⟩

/-!
## Whole runs
-/

theorem represents_init {size : Nat} (hsize : size < 2 ^ 31) (ops : MyHashOps) :
    Represents (myHashInit size ops) fun _ => none where
  wellFormed := by
    refine ⟨?_, ?_, ⟨fun _ => [], ⟨rfl, fun _ _ => rfl, fun _ _ _ hq => by cases hq⟩, ?_⟩,
      ⟨∅, ?_, rfl⟩, ⟨?_, ?_, ?_, ?_, ?_⟩⟩
    · show 0 < if size = 0 then HASH_DEFAULT_SIZE else size
      split
      · decide
      · omega
    · show (if size = 0 then HASH_DEFAULT_SIZE else size) < 2 ^ 31
      split
      · decide
      · exact hsize
    · simp [myHashInit]
    · simp [myHashInit]
    · intro p hp
      exact absurd rfl hp
    · intro p entry hp
      cases hp
    · intro p entry hp
      cases hp
    · intro p entry hp
      cases hp
    · intro p q entry other hp
      cases hp
  agrees := by
    intro key _ value
    constructor
    · intro hvalue
      cases hvalue
    · rintro ⟨p, entry, hp, _⟩
      cases hp

theorem represents_run {size : Nat} {ops : MyHashOps} {calls : List Call}
    (hsize : size < 2 ^ 31) (hkeys : ops.Lawful) (hplain : ops.Plain)
    (hstep : 1 <= HASH_GROW_STEP)
    (hrun : Run HASH_GROW_STEP (myHashInit size ops) calls hash) :
    hash.ops = ops ∧ Represents hash (mapAfter ops calls) := by
  induction hrun with
  | nil => exact ⟨rfl, represents_init hsize ops⟩
  | snoc _ hallowed hcall ih =>
      rcases ih with ⟨hops, hrep⟩
      subst hops
      rcases hrep.step hkeys hplain hstep hallowed with ⟨p, hash', hcall', hops', hrep'⟩
      rw [hcall] at hcall'
      cases hcall'
      rw [mapAfter_snoc]
      exact ⟨hops', hrep'⟩

def LookupShows (hash : MyHash) (key : Ptr) : Option Ptr -> Prop
  | none => myHashLookup hash key = some NULL
  | some value => exists p entry, myHashLookup hash key = some p ∧ p ≠ NULL ∧
      hash.heap p = some entry ∧ hash.ops.compare key entry.key = 0 ∧ entry.value = value

theorem Represents.lookupShows (h : Represents hash map) (hkeys : hash.ops.Lawful)
    (hkey : key ≠ NULL) : LookupShows hash key (map key) := by
  cases hvalue : map key with
  | none =>
      exact myHashLookup_of_absent h.wellFormed hkeys hkey
        ((h.agrees.absent_iff hkey).mp hvalue)
  | some value =>
      rcases (h.agrees key hkey value).mp hvalue with ⟨p, entry, hp, hcompare, hentry⟩
      have hentryOf : EntryOf hash key p := ⟨entry, hp, hcompare⟩
      exact ⟨p, entry, myHashLookup_of_entryOf h.wellFormed hkeys hkey hentryOf,
        hentryOf.ne_null h.wellFormed, hp, hcompare, hentry⟩

/-- The chained hash table refines a finite map, across growth and failed
allocations. -/
theorem chainedHash_refines_map {HASH_GROW_STEP size : Nat} {ops : MyHashOps}
    {calls : List Call} {hash : MyHash} (hstep : 1 <= HASH_GROW_STEP) (hsize : size < 2 ^ 31)
    (hkeys : ops.Lawful) (hplain : ops.Plain)
    (hrun : Run HASH_GROW_STEP (myHashInit size ops) calls hash) :
    WellFormed hash ∧
      (forall call : Call, call.Allowed HASH_GROW_STEP hash ->
        exists p hash', call.apply HASH_GROW_STEP hash = some (p, hash')) ∧
      (forall key, key ≠ NULL -> LookupShows hash key (mapAfter ops calls key)) ∧
      (forall key outcome value, outcome.entry = NULL -> mapAfter ops calls key = none ->
        myHashLookadd HASH_GROW_STEP hash key outcome = some (NULL, hash) ∧
          myHashAdd HASH_GROW_STEP hash key value outcome = some (NULL, hash)) ∧
      rehash HASH_GROW_STEP hash false = some hash := by
  rcases represents_run hsize hkeys hplain hstep hrun with ⟨hops, hrep⟩
  subst hops
  refine ⟨hrep.wellFormed, ?_, fun key hkey => hrep.lookupShows hkeys hkey, ?_,
    rehash_failed HASH_GROW_STEP hash⟩
  · intro call hallowed
    rcases hrep.step hkeys hplain hstep hallowed with ⟨p, hash', hcall, _⟩
    exact ⟨p, hash', hcall⟩
  · intro key outcome value hentry hnone
    cases eq_or_ne key NULL with
    | inl hnull =>
        subst hnull
        exact ⟨myHashLookadd_null HASH_GROW_STEP hash outcome,
          myHashAdd_null HASH_GROW_STEP hash value outcome⟩
    | inr hkey =>
        have habsent := (hrep.agrees.absent_iff hkey).mp hnone
        exact ⟨myHashLookadd_failed hrep.wellFormed hkeys hkey habsent hentry,
          myHashAdd_failed hrep.wellFormed hkeys hkey habsent hentry value⟩

def addressOps : MyHashOps where
  hash := uint
  compare := fun k l => (k : Int) - l
  keyDup := false
  keyFree := false
  valueDup := false
  valueFree := false

theorem addressOps_lawful : addressOps.Lawful where
  refl := fun k _ => Int.sub_self k
  symm := by
    intro k l _ _ h
    simp only [addressOps] at h ⊢
    omega
  trans := by
    intro k l m _ _ _ h h'
    simp only [addressOps] at h h' ⊢
    omega
  hash_eq := by
    intro k l _ _ h
    simp only [addressOps] at h ⊢
    congr 1
    omega

theorem addressOps_plain : addressOps.Plain :=
  ⟨rfl, rfl, rfl, rfl⟩

/-- A key gets another value, for which no entry has to be allocated, with the fourth key
the table grows, and one key is deleted. -/
def shortRun : List Call :=
  [.add 5 7 ⟨100, true, 0, 0⟩, .add 5 11 ⟨NULL, true, 0, 0⟩, .add 6 8 ⟨101, true, 0, 0⟩,
    .add 7 9 ⟨102, true, 0, 0⟩, .add 8 10 ⟨103, true, 0, 0⟩, .delete 6]

theorem Run.plainAdd {calls : List Call} {ret : Ptr} (key value entry : Ptr)
    (hrun : Run 2 (myHashInit 1 addressOps) calls hash)
    (hfree : entry ≠ NULL -> hash.heap entry = none ∧ entry < 2 ^ 64)
    (hfits : 2 * hash.size < 2 ^ 31)
    (hcall : (Call.add key value ⟨entry, true, 0, 0⟩).apply 2 hash = some (ret, hash')) :
    Run 2 (myHashInit 1 addressOps) (calls ++ [.add key value ⟨entry, true, 0, 0⟩]) hash' :=
  hrun.snoc ⟨hfree, fun _ => hfits⟩ hcall

theorem shortRun_run : exists hash, Run 2 (myHashInit 1 addressOps) shortRun hash ∧
    hash.size = 2 ∧ hash.num = 3 := by
  have hstart : Run 2 (myHashInit 1 addressOps) [] (myHashInit 1 addressOps) := Run.nil
  have htwo := (hstart.plainAdd 5 7 100 (fun _ => ⟨rfl, by decide⟩) (by decide) rfl).plainAdd
    5 11 NULL (fun h => absurd rfl h) (by decide) rfl
  have hfive := ((htwo.plainAdd 6 8 101 (fun _ => ⟨rfl, by decide⟩) (by decide) rfl).plainAdd
    7 9 102 (fun _ => ⟨rfl, by decide⟩) (by decide) rfl).plainAdd 8 10 103
    (fun _ => ⟨rfl, by decide⟩) (by decide) rfl
  have hsix : forall hash : MyHash, (Call.delete 6).Allowed 2 hash := fun _ => by
    show (6 : Ptr) ≠ NULL
    decide
  exact ⟨_, hfive.snoc (hsix _) rfl, rfl, rfl⟩

theorem chainedHash_refines_map_shortRun :
    exists hash, Run 2 (myHashInit 1 addressOps) shortRun hash ∧ WellFormed hash ∧
      hash.size = 2 ∧ LookupShows hash 5 (some 11) ∧ LookupShows hash 6 none ∧
      LookupShows hash 7 (some 9) ∧ LookupShows hash 8 (some 10) := by
  rcases shortRun_run with ⟨hash, hrun, hsize, _⟩
  rcases chainedHash_refines_map (by decide) (by decide) addressOps_lawful addressOps_plain
    hrun with ⟨hwell, _, hlookup, _⟩
  have hfive : mapAfter addressOps shortRun 5 = some 11 := by decide
  have hsix : mapAfter addressOps shortRun 6 = none := by decide
  have hseven : mapAfter addressOps shortRun 7 = some 9 := by decide
  have height : mapAfter addressOps shortRun 8 = some 10 := by decide
  exact ⟨hash, hrun, hwell, hsize, hfive ▸ hlookup 5 (by decide), hsix ▸ hlookup 6 (by decide),
    hseven ▸ hlookup 7 (by decide), height ▸ hlookup 8 (by decide)⟩

end ChainedHash
end MyLibs
