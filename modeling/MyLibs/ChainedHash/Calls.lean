import MyLibs.ChainedHash.Insertion

/-!
# The calls on a table without callbacks
-/

namespace MyLibs
namespace ChainedHash

open Foundation

structure MyHashOps.Plain (ops : MyHashOps) : Prop where
  keyDup : ops.keyDup = false
  keyFree : ops.keyFree = false
  valueDup : ops.valueDup = false
  valueFree : ops.valueFree = false

/-- What a table relies on: `compare` is an equivalence on keys, and equal keys
hash equally. -/
structure MyHashOps.Lawful (ops : MyHashOps) : Prop where
  refl : forall k, k ≠ NULL -> ops.compare k k = 0
  symm : forall k l, k ≠ NULL -> l ≠ NULL -> ops.compare k l = 0 -> ops.compare l k = 0
  trans : forall k l m, k ≠ NULL -> l ≠ NULL -> m ≠ NULL ->
    ops.compare k l = 0 -> ops.compare l m = 0 -> ops.compare k m = 0
  hash_eq : forall k l, k ≠ NULL -> l ≠ NULL -> ops.compare k l = 0 ->
    ops.hash k = ops.hash l

def EntryOf (hash : MyHash) (key p : Ptr) : Prop :=
  exists entry, hash.heap p = some entry ∧ hash.ops.compare key entry.key = 0

def Absent (hash : MyHash) (key : Ptr) : Prop :=
  forall p entry, hash.heap p = some entry -> hash.ops.compare key entry.key ≠ 0

variable {hash hash' : MyHash} {key p : Ptr}

theorem EntryOf.ne_null (h : EntryOf hash key p) (hwell : WellFormed hash) : p ≠ NULL := by
  rcases h with ⟨entry, hentry, _⟩
  exact ne_null_of_some hwell.null_none hentry

theorem Absent.not_entryOf (h : Absent hash key) : ¬ EntryOf hash key p :=
  fun ⟨entry, hentry, hcompare⟩ => h p entry hentry hcompare

theorem EntryOf.unique (hwell : WellFormed hash) (hkeys : hash.ops.Lawful) (hkey : key ≠ NULL)
    {q : Ptr} (hp : EntryOf hash key p) (hq : EntryOf hash key q) : p = q := by
  rcases hp with ⟨entry, hentry, hcompare⟩
  rcases hq with ⟨other, hother, hcompare'⟩
  have hentryKey := hwell.keyed.key_ne p entry hentry
  have hotherKey := hwell.keyed.key_ne q other hother
  have hback := hkeys.symm key entry.key hkey hentryKey hcompare
  exact hwell.keyed.keys_ne p q entry other hentry hother
    (hkeys.trans _ key _ hentryKey hkey hotherKey hback hcompare')

/-!
## Search
-/

theorem findKey_spec (ops : MyHashOps) (key : Ptr) {heap : Heap} {fuel : Nat} {before pre : Ptr}
    {path : List Ptr} (hnull : heap NULL = none) (hfuel : path.length < fuel)
    (hpath : Doubly (heapLinks heap) before pre path NULL) :
    exists p, findKey ops heap key fuel pre = some p ∧
      ((p = NULL ∧ forall q entry, q ∈ path -> heap q = some entry ->
          ops.compare key entry.key ≠ 0) ∨
        (exists entry, heap p = some entry ∧ ops.compare key entry.key = 0)) := by
  induction path generalizing fuel before pre with
  | nil =>
      cases fuel with
      | zero => cases hfuel
      | succ fuel =>
          rw [Doubly.nil_iff] at hpath
          refine ⟨NULL, by rw [findKey, if_pos hpath], Or.inl ⟨rfl, ?_⟩⟩
          intro q entry hq
          cases hq
  | cons q path ih =>
      cases fuel with
      | zero => cases hfuel
      | succ fuel =>
          rcases hpath with ⟨hq, next, hlinks, htail⟩
          subst hq
          rcases exists_of_heapLinks hlinks with ⟨entry, hentry, hnext, _⟩
          have hne : pre ≠ NULL := ne_null_of_some hnull hentry
          rw [findKey, if_neg hne]
          simp only [hentry, Option.bind_eq_bind, Option.bind_some]
          by_cases hcompare : ops.compare key entry.key = 0
          · rw [if_pos hcompare]
            exact ⟨pre, rfl, Or.inr ⟨entry, hentry, hcompare⟩⟩
          · rw [if_neg hcompare, hnext]
            rcases ih (Nat.lt_of_succ_lt_succ hfuel) htail with ⟨p, hfind, hp⟩
            refine ⟨p, hfind, hp.imp_left fun ⟨hp, habsent⟩ => ⟨hp, ?_⟩⟩
            intro r other hr hother
            cases hr with
            | head =>
                rw [hentry] at hother
                cases hother
                exact hcompare
            | tail _ hr => exact habsent r other hr hother

theorem Joined.findKey_bucket (h : Joined hash) (key : Ptr) :
    exists p, findKey hash.ops hash.heap key (hash.num + 1)
        (hash.buckets (HASH_INDEX (hash.ops.hash key) hash.size)) = some p ∧
      ((p = NULL ∧ forall q entry, hash.heap q = some entry ->
          HASH_INDEX entry.keyHash hash.size = HASH_INDEX (hash.ops.hash key) hash.size ->
          hash.ops.compare key entry.key ≠ 0) ∨
        EntryOf hash key p) := by
  rcases h.linked with ⟨chains, hlinked, hmem⟩
  rcases h.counted with ⟨entries, hentries, hnum⟩
  have hlt : HASH_INDEX (hash.ops.hash key) hash.size < hash.size := Nat.mod_lt _ h.size_pos
  have hdoubly := hlinked.doubly _ hlt
  have hlength := length_le_card hlinked.nil_none hdoubly fun q hq => by
    rw [hentries, ← hmem, hlinked.atHome _ hlt q hq]
    exact hq
  rw [← hnum] at hlength
  rcases findKey_spec hash.ops key h.null_none (Nat.lt_succ_of_le hlength)
    hdoubly with ⟨p, hfind, hp⟩
  refine ⟨p, hfind, hp.imp_left fun ⟨hp, habsent⟩ => ⟨hp, fun q entry hq hhome => ?_⟩⟩
  have hin := (hmem q).mpr (by simp [hq])
  rw [home_of_some hash.size hq, hhome] at hin
  exact habsent q entry hin hq

theorem findKey_bucket (h : WellFormed hash) (hkeys : hash.ops.Lawful) (hkey : key ≠ NULL) :
    exists p, findKey hash.ops hash.heap key (hash.num + 1)
        (hash.buckets (HASH_INDEX (hash.ops.hash key) hash.size)) = some p ∧
      ((p = NULL ∧ Absent hash key) ∨ EntryOf hash key p) := by
  rcases h.chained.joined.findKey_bucket key with ⟨p, hfind, hp⟩
  refine ⟨p, hfind, hp.imp_left fun ⟨hp, habsent⟩ => ⟨hp, fun q entry hq hcompare => ?_⟩⟩
  -- an entry with an equal key would be in this bucket
  have hhash : entry.keyHash = hash.ops.hash key := by
    rw [h.keyed.keyHash_eq q entry hq,
      hkeys.hash_eq key entry.key hkey (h.keyed.key_ne q entry hq) hcompare]
  exact habsent q entry hq (congrArg (HASH_INDEX · hash.size) hhash) hcompare

theorem myHashLookup_spec (h : WellFormed hash) (hkeys : hash.ops.Lawful) (hkey : key ≠ NULL) :
    exists p, myHashLookup hash key = some p ∧
      ((p = NULL ∧ Absent hash key) ∨ EntryOf hash key p) := by
  rw [myHashLookup, if_neg hkey]
  exact findKey_bucket h hkeys hkey

theorem myHashLookup_of_entryOf (h : WellFormed hash) (hkeys : hash.ops.Lawful)
    (hkey : key ≠ NULL) (hp : EntryOf hash key p) : myHashLookup hash key = some p := by
  rcases myHashLookup_spec h hkeys hkey with ⟨q, hlookup, ⟨_, habsent⟩ | hq⟩
  · exact absurd hp habsent.not_entryOf
  · rw [hlookup, EntryOf.unique h hkeys hkey hq hp]

theorem myHashLookup_of_absent (h : WellFormed hash) (hkeys : hash.ops.Lawful)
    (hkey : key ≠ NULL) (habsent : Absent hash key) : myHashLookup hash key = some NULL := by
  rcases myHashLookup_spec h hkeys hkey with ⟨q, hlookup, ⟨hnull, _⟩ | hq⟩
  · rw [hlookup, hnull]
  · exact absurd hq habsent.not_entryOf

theorem absent_or_entryOf (hash : MyHash) (key : Ptr) :
    Absent hash key ∨ exists p, EntryOf hash key p := by
  by_cases h : exists p, EntryOf hash key p
  · exact Or.inr h
  · refine Or.inl fun p entry hentry hcompare => h ⟨p, entry, hentry, hcompare⟩

/-!
## Adding
-/

def newEntry (ops : MyHashOps) (key : Ptr) : MyHashIter :=
  { MyHashIter.zero with key := key, keyHash := ops.hash key }

def FreshEntry (hash : MyHash) (outcome : Outcome) : Prop :=
  outcome.entry ≠ NULL -> hash.heap outcome.entry = none ∧ outcome.entry < 2 ^ 64

def GrowthFits (HASH_GROW_STEP : Nat) (hash : MyHash) : Prop :=
  isFull hash = true -> HASH_GROW_STEP * hash.size < 2 ^ 31

variable {HASH_GROW_STEP : Nat} {outcome : Outcome}

theorem myHashLookadd_null (HASH_GROW_STEP : Nat) (hash : MyHash) (outcome : Outcome) :
    myHashLookadd HASH_GROW_STEP hash NULL outcome = some (NULL, hash) :=
  if_pos rfl

theorem myHashLookadd_present (h : WellFormed hash) (hkeys : hash.ops.Lawful)
    (hkey : key ≠ NULL) (hp : EntryOf hash key p) :
    myHashLookadd HASH_GROW_STEP hash key outcome = some (p, hash) := by
  rw [myHashLookadd, if_neg hkey, myHashLookup_of_entryOf h hkeys hkey hp]
  exact if_pos (hp.ne_null h)

theorem myHashLookadd_failed (h : WellFormed hash) (hkeys : hash.ops.Lawful)
    (hkey : key ≠ NULL) (habsent : Absent hash key) (hentry : outcome.entry = NULL) :
    myHashLookadd HASH_GROW_STEP hash key outcome = some (NULL, hash) := by
  rw [myHashLookadd, if_neg hkey, myHashLookup_of_absent h hkeys hkey habsent]
  simp [hentry]

theorem rehashIfFull_spec (h : WellFormed hash) (hstep : 1 <= HASH_GROW_STEP)
    (hfits : GrowthFits HASH_GROW_STEP hash) (callocOk : Bool) :
    exists grown, rehashIfFull HASH_GROW_STEP hash callocOk = some grown ∧
      Changed hash grown hash.heap := by
  rw [rehashIfFull]
  by_cases hfull : isFull hash = true
  · rw [if_pos hfull]
    exact rehash_spec h hstep (hfits hfull) callocOk
  · rw [if_neg hfull]
    exact ⟨hash, rfl, Changed.refl h⟩

theorem myHashLookadd_added (h : WellFormed hash) (hkeys : hash.ops.Lawful)
    (hplain : hash.ops.Plain) (hstep : 1 <= HASH_GROW_STEP) (hkey : key ≠ NULL)
    (habsent : Absent hash key) (hentry : outcome.entry ≠ NULL)
    (hfresh : FreshEntry hash outcome) (hfits : GrowthFits HASH_GROW_STEP hash) :
    exists hash', myHashLookadd HASH_GROW_STEP hash key outcome =
        some (outcome.entry, hash') ∧
      Changed hash hash'
        (Function.update hash.heap outcome.entry (some (newEntry hash.ops key))) := by
  rcases hfresh hentry with ⟨hfree, hlt⟩
  rcases rehashIfFull_spec h hstep hfits outcome.buckets with ⟨grown, hgrown, hchanged⟩
  have hkeyed : Keyed hash.ops
      (Function.update hash.heap outcome.entry (some (newEntry hash.ops key))) := by
    refine h.keyed.put hlt rfl hkey rfl ?_
    intro q other hother _
    refine ⟨habsent q other hother, fun hcompare => habsent q other hother ?_⟩
    exact hkeys.symm other.key key (h.keyed.key_ne q other hother) hkey hcompare
  have hsame : SameData
      (Function.update hash.heap outcome.entry (some (newEntry hash.ops key)))
      (Function.update grown.heap outcome.entry (some (newEntry hash.ops key))) :=
    hchanged.data.update_same outcome.entry _
  have hkeyed' := hkeyed.congr hsame
  rw [← hchanged.ops_eq] at hkeyed'
  rcases linkEntry_spec hchanged.wellFormed (hchanged.data.none_iff.mpr hfree) hentry rfl hkeyed'
    with ⟨hash', hlink, hadded⟩
  refine ⟨hash', ?_, hadded.wellFormed, ?_, hadded.ops_eq.trans hchanged.ops_eq⟩
  · rw [myHashLookadd, if_neg hkey, myHashLookup_of_absent h hkeys hkey habsent]
    simp only [Option.bind_eq_bind, Option.bind_some, ne_eq, not_true, if_false, hentry,
      hplain.keyDup, MyHash.logged, Bool.false_eq_true, hgrown]
    rw [hchanged.ops_eq] at hlink
    simp only [newEntry] at hlink
    rw [hlink]
    rfl
  · rw [hchanged.ops_eq] at hadded
    exact hsame.trans hadded.data

theorem Chained.setValue (h : Chained hash) {entry : MyHashIter}
    (hp : hash.heap p = some entry) (value : Ptr) :
    Chained { hash with
      heap := Function.update hash.heap p (some { entry with value := value }) } := by
  refine (h.joined.write hp { entry with value := value } rfl rfl rfl).chained ?_
  intro q other hq
  rcases update_some_cases hq with ⟨_, hother⟩ | ⟨_, hq⟩
  · rw [hother]
    exact h.foreach_eq p entry hp
  · exact h.foreach_eq q other hq

theorem WellFormed.setValue (h : WellFormed hash) {entry : MyHashIter}
    (hp : hash.heap p = some entry) (value : Ptr) :
    WellFormed { hash with
      heap := Function.update hash.heap p (some { entry with value := value }) } := by
  refine (h.chained.setValue hp value).wellFormed h.size_lt ?_
  refine h.keyed.put (h.keyed.address_lt p (by simp [hp])) (h.keyed.keyHash_eq p entry hp)
    (h.keyed.key_ne p entry hp) (h.keyed.foreach_eq p entry hp) fun q other hq hne => ?_
  exact ⟨fun hcompare => hne (h.keyed.keys_ne p q entry other hp hq hcompare).symm,
    fun hcompare => hne (h.keyed.keys_ne q p other entry hq hp hcompare)⟩

theorem myHashAdd_null (HASH_GROW_STEP : Nat) (hash : MyHash) (value : Ptr)
    (outcome : Outcome) :
    myHashAdd HASH_GROW_STEP hash NULL value outcome = some (NULL, hash) := by
  rw [myHashAdd, myHashLookadd_null]
  rfl

theorem myHashAdd_failed (h : WellFormed hash) (hkeys : hash.ops.Lawful)
    (hkey : key ≠ NULL) (habsent : Absent hash key) (hentry : outcome.entry = NULL)
    (value : Ptr) :
    myHashAdd HASH_GROW_STEP hash key value outcome = some (NULL, hash) := by
  rw [myHashAdd, myHashLookadd_failed h hkeys hkey habsent hentry]
  rfl

theorem myHashAdd_of_lookadd {entry : MyHashIter}
    (hlookadd : myHashLookadd HASH_GROW_STEP hash key outcome = some (p, hash'))
    (hwell : WellFormed hash') (hplain : hash'.ops.Plain) (hp : hash'.heap p = some entry)
    (value : Ptr) :
    exists added, myHashAdd HASH_GROW_STEP hash key value outcome = some (p, added) ∧
      Changed hash' added
        (Function.update hash'.heap p (some { entry with value := value })) := by
  have hne : p ≠ NULL := ne_null_of_some hwell.null_none hp
  refine ⟨_, ?_, hwell.setValue hp value, SameData.refl _, rfl⟩
  rw [myHashAdd, hlookadd]
  simp only [Option.bind_eq_bind, Option.bind_some, hne, if_false, hp, MyHash.logged,
    hplain.valueFree, hplain.valueDup, Bool.false_eq_true, writeIter_of_some hp]

/-!
## Deleting
-/

theorem myHashDelete_absent (h : WellFormed hash) (hkeys : hash.ops.Lawful)
    (hkey : key ≠ NULL) (habsent : Absent hash key) : myHashDelete hash key = some hash := by
  rcases findKey_bucket h hkeys hkey with ⟨p, hfind, ⟨hp, _⟩ | hp⟩
  · rw [myHashDelete, hfind, hp]
    rfl
  · exact absurd hp habsent.not_entryOf

theorem myHashIterDelete_spec (h : WellFormed hash) (hplain : hash.ops.Plain)
    (hp : hash.heap p ≠ none) : exists hash', myHashIterDelete hash p = some hash' ∧
      Changed hash hash' (Function.update hash.heap p none) := by
  rcases Option.ne_none_iff_exists'.mp hp with ⟨entry, hentry⟩
  have hne : p ≠ NULL := by
    rintro rfl
    exact hp h.null_none
  rcases unlinkEntry_spec h hentry hash.log { entry with value := NULL, key := NULL }
    rfl rfl rfl with ⟨hash', hunlink, hchanged⟩
  have hforeach : ¬ entry.foreach ≠ 0 := not_not.mpr (h.keyed.foreach_eq p entry hentry)
  refine ⟨hash', ?_, hchanged⟩
  rw [myHashIterDelete, if_neg hne, hentry]
  simp only [Option.bind_eq_bind, Option.bind_some, MyHash.logged, hplain.valueFree,
    hplain.keyFree, Bool.false_eq_true, if_false, if_neg hforeach]
  exact hunlink

theorem myHashDelete_present (h : WellFormed hash) (hkeys : hash.ops.Lawful)
    (hplain : hash.ops.Plain) (hkey : key ≠ NULL) (hp : EntryOf hash key p) :
    exists hash', myHashDelete hash key = some hash' ∧
      Changed hash hash' (Function.update hash.heap p none) := by
  rcases findKey_bucket h hkeys hkey with ⟨q, hfind, ⟨_, habsent⟩ | hq⟩
  · exact absurd hp habsent.not_entryOf
  · rw [EntryOf.unique h hkeys hkey hq hp] at hfind
    rw [myHashDelete, hfind]
    rcases hp with ⟨entry, hentry, _⟩
    exact myHashIterDelete_spec h hplain (by simp [hentry])

end ChainedHash
end MyLibs
