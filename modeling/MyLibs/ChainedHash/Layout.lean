import Mathlib.Data.Finset.Card
import MyLibs.ChainedHash.Model
import MyLibs.Foundation.BucketChains

/-!
# How entries are linked

The links of the entries and what else they hold are looked at apart: growth
and unlinking rewrite links only.
-/

namespace MyLibs
namespace ChainedHash

open Foundation

def heapLinks (heap : Heap) : Links Ptr :=
  fun p => (heap p).map fun iter => (iter.next, iter.prev)

def MyHashIter.bare (iter : MyHashIter) : MyHashIter :=
  { iter with next := NULL, prev := NULL }

def SameData (heap heap' : Heap) : Prop :=
  forall p, (heap' p).map MyHashIter.bare = (heap p).map MyHashIter.bare

def home (heap : Heap) (size : Nat) (p : Ptr) : Nat :=
  (heap p).elim 0 fun iter => HASH_INDEX iter.keyHash size

variable {heap heap' heap'' : Heap} {p q : Ptr} {iter : MyHashIter}

theorem heapLinks_eq_none_iff : heapLinks heap p = none <-> heap p = none := by
  simp [heapLinks]

theorem ne_null_of_some (hnull : heap NULL = none) (hp : heap p = some iter) : p ≠ NULL := by
  rintro rfl
  rw [hnull] at hp
  cases hp

theorem heapLinks_of_some (h : heap p = some iter) :
    heapLinks heap p = some (iter.next, iter.prev) := by
  simp [heapLinks, h]

theorem exists_of_heapLinks {next prev : Ptr} (h : heapLinks heap p = some (next, prev)) :
    exists iter, heap p = some iter ∧ iter.next = next ∧ iter.prev = prev := by
  simpa [heapLinks] using h

theorem home_of_some (size : Nat) (h : heap p = some iter) :
    home heap size p = HASH_INDEX iter.keyHash size := by
  simp [home, h]

/-!
## Unchanged data
-/

theorem SameData.refl (heap : Heap) : SameData heap heap :=
  fun _ => rfl

theorem SameData.trans (hfirst : SameData heap heap') (hsecond : SameData heap' heap'') :
    SameData heap heap'' :=
  fun p => (hsecond p).trans (hfirst p)

theorem SameData.symm (h : SameData heap heap') : SameData heap' heap :=
  fun p => (h p).symm

theorem SameData.none_iff (h : SameData heap heap') : heap' p = none <-> heap p = none := by
  rw [← Option.map_eq_none_iff (f := MyHashIter.bare), h p, Option.map_eq_none_iff]

theorem SameData.exists_iter (h : SameData heap heap') (hp : heap p = some iter) :
    exists iter', heap' p = some iter' ∧ iter'.bare = iter.bare := by
  have hbare := h p
  rw [hp] at hbare
  simpa using hbare

theorem bare_eq_iff {iter iter' : MyHashIter} : iter'.bare = iter.bare <->
    iter'.key = iter.key ∧ iter'.value = iter.value ∧ iter'.keyHash = iter.keyHash ∧
      iter'.foreach = iter.foreach := by
  simp [MyHashIter.bare]

theorem SameData.home_eq (h : SameData heap heap') (size : Nat) (p : Ptr) :
    home heap' size p = home heap size p := by
  cases hp : heap p with
  | none => simp [home, h.none_iff.mpr hp, hp]
  | some iter =>
      rcases h.exists_iter hp with ⟨iter', hp', hbare⟩
      rw [home_of_some size hp, home_of_some size hp', (bare_eq_iff.mp hbare).right.right.left]

/-!
## Writes
-/

theorem update_some_cases {other : MyHashIter}
    (h : Function.update heap p (some iter) q = some other) :
    q = p ∧ other = iter ∨ q ≠ p ∧ heap q = some other := by
  cases eq_or_ne q p with
  | inl heq =>
      rw [heq, Function.update_self] at h
      exact Or.inl ⟨heq, (Option.some.inj h).symm⟩
  | inr hne =>
      rw [Function.update_of_ne hne] at h
      exact Or.inr ⟨hne, h⟩

theorem update_none_cases {other : MyHashIter}
    (h : Function.update heap p none q = some other) : q ≠ p ∧ heap q = some other := by
  cases eq_or_ne q p with
  | inl heq =>
      rw [heq, Function.update_self] at h
      cases h
  | inr hne =>
      rw [Function.update_of_ne hne] at h
      exact ⟨hne, h⟩

theorem update_some_ne_none_iff (hp : heap p ≠ none) (iter : MyHashIter) (q : Ptr) :
    Function.update heap p (some iter) q ≠ none <-> heap q ≠ none := by
  cases eq_or_ne q p with
  | inl heq => simp [heq, hp]
  | inr hne => rw [Function.update_of_ne hne]

theorem SameData.update (hp : heap p = some iter) {iter' : MyHashIter}
    (hbare : iter'.bare = iter.bare) : SameData heap (Function.update heap p (some iter')) := by
  intro q
  cases eq_or_ne q p with
  | inl heq =>
      subst heq
      rw [Function.update_self, hp, Option.map_some, Option.map_some, hbare]
  | inr hne => rw [Function.update_of_ne hne]

theorem SameData.update_same (h : SameData heap heap') (p : Ptr) (iter : Option MyHashIter) :
    SameData (Function.update heap p iter) (Function.update heap' p iter) := by
  intro q
  cases eq_or_ne q p with
  | inl heq => rw [heq, Function.update_self, Function.update_self]
  | inr hne =>
      rw [Function.update_of_ne hne, Function.update_of_ne hne]
      exact h q

theorem heapLinks_update (heap : Heap) (p : Ptr) (iter : MyHashIter) :
    heapLinks (Function.update heap p (some iter)) =
      Function.update (heapLinks heap) p (some (iter.next, iter.prev)) := by
  funext q
  cases eq_or_ne q p with
  | inl heq =>
      subst heq
      simp [heapLinks]
  | inr hne => simp [heapLinks, Function.update_of_ne hne]

theorem heapLinks_update_none (heap : Heap) (p : Ptr) :
    heapLinks (Function.update heap p none) = Function.update (heapLinks heap) p none := by
  funext q
  cases eq_or_ne q p with
  | inl heq =>
      subst heq
      simp [heapLinks]
  | inr hne => simp [heapLinks, Function.update_of_ne hne]

theorem writeIter_of_some (hp : heap p = some iter) (f : MyHashIter -> MyHashIter) :
    writeIter heap p f = some (Function.update heap p (some (f iter))) := by
  rw [writeIter, hp, Option.map_some]

theorem writeIter_next_spec (next : Ptr) (hp : heap p ≠ none) : exists heap',
    (writeIter heap p fun iter => { iter with next := next }) = some heap' ∧
      heapLinks heap' = setNext (heapLinks heap) p next ∧ SameData heap heap' := by
  rcases Option.ne_none_iff_exists'.mp hp with ⟨iter, hiter⟩
  refine ⟨_, writeIter_of_some hiter _, ?_, SameData.update hiter rfl⟩
  rw [heapLinks_update, setNext, heapLinks_of_some hiter, Option.map_some]

theorem writeIter_prev_spec (prev : Ptr) (hp : heap p ≠ none) : exists heap',
    (writeIter heap p fun iter => { iter with prev := prev }) = some heap' ∧
      heapLinks heap' = setPrev (heapLinks heap) p prev ∧ SameData heap heap' := by
  rcases Option.ne_none_iff_exists'.mp hp with ⟨iter, hiter⟩
  refine ⟨_, writeIter_of_some hiter _, ?_, SameData.update hiter rfl⟩
  rw [heapLinks_update, setPrev, heapLinks_of_some hiter, Option.map_some]

theorem writePrev_spec (prev : Ptr) (hnull : heap NULL = none) (hp : p = NULL ∨ heap p ≠ none) :
    exists heap', writePrev heap p prev = some heap' ∧
      heapLinks heap' = setPrev (heapLinks heap) p prev ∧ SameData heap heap' := by
  cases eq_or_ne p NULL with
  | inl heq =>
      refine ⟨heap, by rw [writePrev, if_pos heq], ?_, SameData.refl heap⟩
      rw [setPrev_none prev (heapLinks_eq_none_iff.mpr (heq ▸ hnull))]
  | inr hne =>
      rw [writePrev, if_neg hne]
      exact writeIter_prev_spec prev (hp.resolve_left hne)

theorem writeNext_spec (next : Ptr) (hnull : heap NULL = none) (hp : p = NULL ∨ heap p ≠ none) :
    exists heap', writeNext heap p next = some heap' ∧
      heapLinks heap' = setNext (heapLinks heap) p next ∧ SameData heap heap' := by
  cases eq_or_ne p NULL with
  | inl heq =>
      refine ⟨heap, by rw [writeNext, if_pos heq], ?_, SameData.refl heap⟩
      rw [setNext_none next (heapLinks_eq_none_iff.mpr (heq ▸ hnull))]
  | inr hne =>
      rw [writeNext, if_neg hne]
      exact writeIter_next_spec next (hp.resolve_left hne)

/-!
## The table
-/

def Linked (heap : Heap) (buckets : Nat -> Ptr) (size : Nat) (chains : Nat -> List Ptr) :
    Prop :=
  BucketChains (heapLinks heap) NULL buckets (home heap size) size chains

structure Keyed (ops : MyHashOps) (heap : Heap) : Prop where
  address_lt : forall p, heap p ≠ none -> p < 2 ^ 64
  keyHash_eq : forall p iter, heap p = some iter -> iter.keyHash = ops.hash iter.key
  key_ne : forall p iter, heap p = some iter -> iter.key ≠ NULL
  foreach_eq : forall p iter, heap p = some iter -> iter.foreach = 0
  keys_ne : forall p q iter iter', heap p = some iter -> heap q = some iter' ->
    ops.compare iter.key iter'.key = 0 -> p = q

def Counted (heap : Heap) (num : Nat) : Prop :=
  exists entries : Finset Ptr, (forall p, p ∈ entries <-> heap p ≠ none) ∧ num = entries.card

structure Joined (hash : MyHash) : Prop where
  size_pos : 0 < hash.size
  /-- Every entry is linked into its bucket, and nothing else is linked. -/
  linked : exists chains, Linked hash.heap hash.buckets hash.size chains ∧
    forall p, p ∈ chains (home hash.heap hash.size p) <-> hash.heap p ≠ none
  counted : Counted hash.heap hash.num
  address_lt : forall p, hash.heap p ≠ none -> p < 2 ^ 64

structure JoinedBy (hash : MyHash) (chains : Nat -> List Ptr) : Prop where
  size_pos : 0 < hash.size
  linked : Linked hash.heap hash.buckets hash.size chains
  mem_iff : forall p, p ∈ chains (home hash.heap hash.size p) <-> hash.heap p ≠ none
  counted : Counted hash.heap hash.num
  address_lt : forall p, hash.heap p ≠ none -> p < 2 ^ 64

structure Chained (hash : MyHash) : Prop where
  size_pos : 0 < hash.size
  /-- Every entry is linked into its bucket, and nothing else is linked. -/
  linked : exists chains, Linked hash.heap hash.buckets hash.size chains ∧
    forall p, p ∈ chains (home hash.heap hash.size p) <-> hash.heap p ≠ none
  counted : Counted hash.heap hash.num
  address_lt : forall p, hash.heap p ≠ none -> p < 2 ^ 64
  foreach_eq : forall p iter, hash.heap p = some iter -> iter.foreach = 0

structure WellFormed (hash : MyHash) : Prop where
  size_pos : 0 < hash.size
  size_lt : hash.size < 2 ^ 31
  /-- Every entry is linked into its bucket, and nothing else is linked. -/
  linked : exists chains, Linked hash.heap hash.buckets hash.size chains ∧
    forall p, p ∈ chains (home hash.heap hash.size p) <-> hash.heap p ≠ none
  counted : Counted hash.heap hash.num
  keyed : Keyed hash.ops hash.heap

structure Changed (hash hash' : MyHash) (heap : Heap) : Prop where
  wellFormed : WellFormed hash'
  data : SameData heap hash'.heap
  ops_eq : hash'.ops = hash.ops

structure Rechained (hash hash' : MyHash) (heap : Heap) : Prop where
  chained : Chained hash'
  data : SameData heap hash'.heap
  ops_eq : hash'.ops = hash.ops
  size_lt : hash.size < 2 ^ 31 -> hash'.size < 2 ^ 31

theorem WellFormed.chained {hash : MyHash} (h : WellFormed hash) : Chained hash where
  size_pos := h.size_pos
  linked := h.linked
  counted := h.counted
  address_lt := h.keyed.address_lt
  foreach_eq := h.keyed.foreach_eq

theorem Chained.wellFormed {hash : MyHash} (h : Chained hash) (hlt : hash.size < 2 ^ 31)
    (hkeyed : Keyed hash.ops hash.heap) : WellFormed hash where
  size_pos := h.size_pos
  size_lt := hlt
  linked := h.linked
  counted := h.counted
  keyed := hkeyed

theorem Rechained.refl {hash : MyHash} (h : Chained hash) : Rechained hash hash hash.heap :=
  ⟨h, SameData.refl hash.heap, rfl, fun hlt => hlt⟩

theorem Changed.refl {hash : MyHash} (h : WellFormed hash) : Changed hash hash hash.heap :=
  ⟨h, SameData.refl hash.heap, rfl⟩

theorem Joined.exists_by {hash : MyHash} (h : Joined hash) :
    exists chains, JoinedBy hash chains := by
  rcases h.linked with ⟨chains, hlinked, hmem⟩
  exact ⟨chains, h.size_pos, hlinked, hmem, h.counted, h.address_lt⟩

section

variable {hash : MyHash} {chains : Nat -> List Ptr}

theorem JoinedBy.joined (h : JoinedBy hash chains) : Joined hash where
  size_pos := h.size_pos
  linked := ⟨chains, h.linked, h.mem_iff⟩
  counted := h.counted
  address_lt := h.address_lt

theorem JoinedBy.null_none (h : JoinedBy hash chains) : hash.heap NULL = none :=
  heapLinks_eq_none_iff.mp h.linked.nil_none

end

theorem Joined.null_none {hash : MyHash} (h : Joined hash) : hash.heap NULL = none := by
  rcases h.exists_by with ⟨chains, hby⟩
  exact hby.null_none

theorem Joined.chained {hash : MyHash} (h : Joined hash)
    (hflags : forall p iter, hash.heap p = some iter -> iter.foreach = 0) : Chained hash where
  size_pos := h.size_pos
  linked := h.linked
  counted := h.counted
  address_lt := h.address_lt
  foreach_eq := hflags

theorem Chained.joined {hash : MyHash} (h : Chained hash) : Joined hash where
  size_pos := h.size_pos
  linked := h.linked
  counted := h.counted
  address_lt := h.address_lt

theorem Chained.null_none {hash : MyHash} (h : Chained hash) : hash.heap NULL = none :=
  h.joined.null_none

theorem WellFormed.null_none {hash : MyHash} (h : WellFormed hash) : hash.heap NULL = none :=
  h.chained.null_none

theorem home_lt {size : Nat} (hsize : 0 < size) (heap : Heap) (p : Ptr) :
    home heap size p < size := by
  cases hp : heap p with
  | none => simpa [home, hp] using hsize
  | some iter =>
      rw [home_of_some size hp]
      exact Nat.mod_lt _ hsize

theorem length_le_card {links : Links Ptr} {before start : Ptr} {path : List Ptr}
    {entries : Finset Ptr} (hnull : links NULL = none)
    (h : Doubly links before start path NULL) (hmem : forall p, p ∈ path -> p ∈ entries) :
    path.length <= entries.card := by
  rw [← List.toFinset_card_of_nodup (h.nodup hnull)]
  exact Finset.card_le_card fun p hp => hmem p (List.mem_toFinset.mp hp)

/-!
## Changes of what the entries hold
-/

theorem Counted.congr {num : Nat} (hdata : SameData heap heap') (h : Counted heap num) :
    Counted heap' num := by
  rcases h with ⟨entries, hentries, hnum⟩
  refine ⟨entries, fun p => ?_, hnum⟩
  rw [ne_eq, hdata.none_iff]
  exact hentries p

theorem Counted.add {num : Nat} (h : Counted heap num) (hp : heap p = none)
    (iter : MyHashIter) : Counted (Function.update heap p (some iter)) (num + 1) := by
  rcases h with ⟨entries, hentries, hnum⟩
  have hnot : p ∉ entries := by
    rw [hentries, not_not]
    exact hp
  refine ⟨insert p entries, fun q => ?_, by rw [Finset.card_insert_of_notMem hnot, hnum]⟩
  rw [Finset.mem_insert, hentries]
  cases eq_or_ne q p with
  | inl heq => simp [heq]
  | inr hne => simp [hne]

theorem Counted.remove {num : Nat} (h : Counted heap num) (hp : heap p ≠ none) :
    Counted (Function.update heap p none) (num - 1) := by
  rcases h with ⟨entries, hentries, hnum⟩
  refine ⟨entries.erase p, fun q => ?_, by
    rw [Finset.card_erase_of_mem ((hentries p).mpr hp), hnum]⟩
  rw [Finset.mem_erase, hentries]
  cases eq_or_ne q p with
  | inl heq => simp [heq]
  | inr hne => simp [hne]

theorem Counted.lt {num : Nat} (h : Counted heap num)
    (haddress : forall p, heap p ≠ none -> p < 2 ^ 64) (hnull : heap NULL = none) :
    num < 2 ^ 64 := by
  rcases h with ⟨entries, hentries, hnum⟩
  have hsubset : entries ⊆ (Finset.range (2 ^ 64)).erase NULL := by
    intro p hp
    rw [hentries] at hp
    rw [Finset.mem_erase, Finset.mem_range]
    refine ⟨?_, haddress p hp⟩
    rintro rfl
    exact hp hnull
  have hcard := Finset.card_le_card hsubset
  rw [Finset.card_erase_of_mem (Finset.mem_range.mpr (by decide)), Finset.card_range] at hcard
  omega

variable {ops : MyHashOps}

theorem Keyed.congr (hdata : SameData heap heap') (h : Keyed ops heap) : Keyed ops heap' where
  address_lt := by
    intro p hp
    rw [ne_eq, hdata.none_iff] at hp
    exact h.address_lt p hp
  keyHash_eq := by
    intro p iter hp
    rcases hdata.symm.exists_iter hp with ⟨iter', hp', hbare⟩
    rcases bare_eq_iff.mp hbare with ⟨hkey, _, hhash, _⟩
    rw [← hhash, ← hkey]
    exact h.keyHash_eq p iter' hp'
  key_ne := by
    intro p iter hp
    rcases hdata.symm.exists_iter hp with ⟨iter', hp', hbare⟩
    rw [← (bare_eq_iff.mp hbare).left]
    exact h.key_ne p iter' hp'
  foreach_eq := by
    intro p iter hp
    rcases hdata.symm.exists_iter hp with ⟨iter', hp', hbare⟩
    rw [← (bare_eq_iff.mp hbare).right.right.right]
    exact h.foreach_eq p iter' hp'
  keys_ne := by
    intro p q iter other hp hq hcompare
    rcases hdata.symm.exists_iter hp with ⟨iter', hp', hbare⟩
    rcases hdata.symm.exists_iter hq with ⟨other', hq', hbare'⟩
    rw [← (bare_eq_iff.mp hbare).left, ← (bare_eq_iff.mp hbare').left] at hcompare
    exact h.keys_ne p q iter' other' hp' hq' hcompare

theorem Rechained.changed {hash hash' : MyHash} (h : Rechained hash hash' heap)
    (hlt : hash.size < 2 ^ 31) (hkeyed : Keyed hash.ops heap) : Changed hash hash' heap := by
  have hkeyed' : Keyed hash'.ops hash'.heap := by
    rw [h.ops_eq]
    exact hkeyed.congr h.data
  exact ⟨h.chained.wellFormed (h.size_lt hlt) hkeyed', h.data, h.ops_eq⟩

theorem Chained.address_lt_congr {hash : MyHash} (h : Chained hash)
    (hdata : SameData hash.heap heap') (hp : heap' p ≠ none) : p < 2 ^ 64 := by
  rw [ne_eq, hdata.none_iff] at hp
  exact h.address_lt p hp

theorem SameData.foreach_eq (hdata : SameData heap heap')
    (h : forall p iter, heap p = some iter -> iter.foreach = 0) (hp : heap' p = some iter) :
    iter.foreach = 0 := by
  rcases hdata.symm.exists_iter hp with ⟨iter', hp', hbare⟩
  rw [← (bare_eq_iff.mp hbare).right.right.right]
  exact h p iter' hp'

theorem JoinedBy.write {hash : MyHash} {chains : Nat -> List Ptr} (h : JoinedBy hash chains)
    (hp : hash.heap p = some iter) (iter' : MyHashIter) (hnext : iter'.next = iter.next)
    (hprev : iter'.prev = iter.prev) (hhash : iter'.keyHash = iter.keyHash) :
    JoinedBy { hash with heap := Function.update hash.heap p (some iter') } chains := by
  have hhome : forall q, home (Function.update hash.heap p (some iter')) hash.size q =
      home hash.heap hash.size q := by
    intro q
    cases eq_or_ne q p with
    | inl heq => simp [heq, home, hp, hhash]
    | inr hne => rw [home, home, Function.update_of_ne hne]
  constructor
  · exact h.size_pos
  · have hlinks : heapLinks (Function.update hash.heap p (some iter')) = heapLinks hash.heap := by
      rw [heapLinks_update, hnext, hprev, ← heapLinks_of_some hp, Function.update_eq_self]
    rw [Linked, hlinks]
    exact h.linked.congr_home fun _ _ q _ => hhome q
  · intro q
    rw [hhome, h.mem_iff]
    exact (update_some_ne_none_iff (by simp [hp]) _ q).symm
  · rcases h.counted with ⟨entries, hentries, hnum⟩
    refine ⟨entries, fun q => ?_, hnum⟩
    rw [hentries]
    exact (update_some_ne_none_iff (by simp [hp]) _ q).symm
  · intro q hq
    exact h.address_lt q ((update_some_ne_none_iff (by simp [hp]) _ q).mp hq)

theorem Joined.write {hash : MyHash} (h : Joined hash) (hp : hash.heap p = some iter)
    (iter' : MyHashIter) (hnext : iter'.next = iter.next) (hprev : iter'.prev = iter.prev)
    (hhash : iter'.keyHash = iter.keyHash) :
    Joined { hash with heap := Function.update hash.heap p (some iter') } := by
  rcases h.exists_by with ⟨chains, hby⟩
  exact (hby.write hp iter' hnext hprev hhash).joined

theorem Keyed.mono (hsub : forall p iter, heap' p = some iter -> heap p = some iter)
    (h : Keyed ops heap) : Keyed ops heap' where
  address_lt := by
    intro p hp
    rcases Option.ne_none_iff_exists'.mp hp with ⟨iter, hiter⟩
    exact h.address_lt p (by simp [hsub p iter hiter])
  keyHash_eq := fun p iter hp => h.keyHash_eq p iter (hsub p iter hp)
  key_ne := fun p iter hp => h.key_ne p iter (hsub p iter hp)
  foreach_eq := fun p iter hp => h.foreach_eq p iter (hsub p iter hp)
  keys_ne := fun p q iter iter' hp hq =>
    h.keys_ne p q iter iter' (hsub p iter hp) (hsub q iter' hq)

theorem Keyed.put (h : Keyed ops heap) (hlt : p < 2 ^ 64)
    (hhash : iter.keyHash = ops.hash iter.key) (hkey : iter.key ≠ NULL)
    (hforeach : iter.foreach = 0)
    (hfresh : forall q other, heap q = some other -> q ≠ p ->
      ops.compare iter.key other.key ≠ 0 ∧ ops.compare other.key iter.key ≠ 0) :
    Keyed ops (Function.update heap p (some iter)) := by
  refine ⟨?_, ?_, ?_, ?_, ?_⟩
  · intro q hq
    cases eq_or_ne q p with
    | inl heq => exact heq ▸ hlt
    | inr hne =>
        rw [Function.update_of_ne hne] at hq
        exact h.address_lt q hq
  · intro q other hq
    rcases update_some_cases hq with ⟨_, rfl⟩ | ⟨_, hq⟩
    · exact hhash
    · exact h.keyHash_eq q other hq
  · intro q other hq
    rcases update_some_cases hq with ⟨_, rfl⟩ | ⟨_, hq⟩
    · exact hkey
    · exact h.key_ne q other hq
  · intro q other hq
    rcases update_some_cases hq with ⟨_, rfl⟩ | ⟨_, hq⟩
    · exact hforeach
    · exact h.foreach_eq q other hq
  · intro q r other other' hq hr hcompare
    rcases update_some_cases hq with ⟨hqp, hother⟩ | ⟨hqp, hq'⟩
    · rcases update_some_cases hr with ⟨hrp, hother'⟩ | ⟨hrp, hr'⟩
      · exact hqp.trans hrp.symm
      · rw [hother] at hcompare
        exact absurd hcompare (hfresh r other' hr' hrp).left
    · rcases update_some_cases hr with ⟨hrp, hother'⟩ | ⟨hrp, hr'⟩
      · rw [hother'] at hcompare
        exact absurd hcompare (hfresh q other hq' hqp).right
      · exact h.keys_ne q r other other' hq' hr' hcompare

end ChainedHash
end MyLibs
