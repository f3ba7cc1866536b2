import MyLibs.ChainedHash.Growth

/-!
# Linking and unlinking an entry
-/

namespace MyLibs
namespace ChainedHash

open Foundation

variable {hash : MyHash} {p : Ptr} {entry : MyHashIter}

theorem writePrev_new {first : Ptr} (hfree : hash.heap p = none)
    (hnull : hash.heap NULL = none) (hp : p ≠ NULL) (hprev : entry.prev = NULL)
    (hfirst : first = NULL ∨ hash.heap first ≠ none) :
    exists heap', writePrev
      (Function.update hash.heap p (some { entry with next := first })) first p = some heap' ∧
        heapLinks heap' = pushed (heapLinks hash.heap) NULL first p ∧
        SameData (Function.update hash.heap p (some entry)) heap' := by
  have hne : p ≠ first := by
    rintro rfl
    cases hfirst with
    | inl hfirst => exact hp hfirst
    | inr hfirst => exact hfirst hfree
  have hnull' : Function.update hash.heap p (some { entry with next := first }) NULL = none := by
    rw [Function.update_of_ne (Ne.symm hp)]
    exact hnull
  have hfirst' : first = NULL ∨
      Function.update hash.heap p (some { entry with next := first }) first ≠ none := by
    rw [Function.update_of_ne (Ne.symm hne)]
    exact hfirst
  rcases writePrev_spec p hnull' hfirst' with ⟨heap', hwrite, hlinks, hdata⟩
  refine ⟨heap', hwrite, ?_, ?_⟩
  · rw [hlinks, heapLinks_update, hprev]
    exact setPrev_update hne
  · have hnext : SameData (Function.update hash.heap p (some entry))
        (Function.update (Function.update hash.heap p (some entry)) p
          (some { entry with next := first })) :=
      SameData.update (Function.update_self ..) rfl
    rw [Function.update_idem] at hnext
    exact hnext.trans hdata

theorem Chained.linkEntry_spec (h : Chained hash) (hfree : hash.heap p = none) (hp : p ≠ NULL)
    (haddress : p < 2 ^ 64) (hprev : entry.prev = NULL) (hforeach : entry.foreach = 0) :
    exists hash', linkEntry hash p entry = some hash' ∧
      Rechained hash hash' (Function.update hash.heap p (some entry)) := by
  rcases h.linked with ⟨chains, hlinked, hmem⟩
  have hself : Function.update hash.heap p (some entry) p = some entry :=
    Function.update_self ..
  have hhome := home_of_some hash.size hself
  have hlt := home_lt h.size_pos (Function.update hash.heap p (some entry)) p
  -- the old entries stay where they are
  have hother : forall q, q ≠ p ->
      home (Function.update hash.heap p (some entry)) hash.size q =
        home hash.heap hash.size q := by
    intro q hq
    rw [home, home, Function.update_of_ne hq]
  have hexists : forall b, b < hash.size -> forall q, q ∈ chains b -> hash.heap q ≠ none := by
    intro b hb q hq
    rw [← hmem, hlinked.atHome b hb q hq]
    exact hq
  have hnew : forall b, b < hash.size -> p ∉ chains b := fun b hb hq =>
    hexists b hb p hq hfree
  have hlinked' : BucketChains (heapLinks hash.heap) NULL hash.buckets
      (home (Function.update hash.heap p (some entry)) hash.size) hash.size chains := by
    refine hlinked.congr_home fun b hb q hq => hother q ?_
    rintro rfl
    exact hnew b hb hq
  have hfirst := (hlinked.head_cases hlt).imp_right (hexists _ hlt _)
  rcases writePrev_new hfree h.null_none hp hprev hfirst with ⟨heap', hwrite, hlinks, hdata⟩
  have hcounted := h.counted.add hfree entry
  have haddresses : forall q, Function.update hash.heap p (some entry) q ≠ none -> q < 2 ^ 64 := by
    intro q hq
    cases eq_or_ne q p with
    | inl heq => exact heq ▸ haddress
    | inr hne =>
        rw [Function.update_of_ne hne] at hq
        exact h.address_lt q hq
  have hflags : forall q other, Function.update hash.heap p (some entry) q = some other ->
      other.foreach = 0 := by
    intro q other hq
    rcases update_some_cases hq with ⟨_, hother⟩ | ⟨_, hq⟩
    · rw [hother]
      exact hforeach
    · exact h.foreach_eq q other hq
  have hnum : sizet (hash.num + 1) = hash.num + 1 := by
    refine Nat.mod_eq_of_lt (hcounted.lt haddresses ?_)
    rw [Function.update_of_ne (Ne.symm hp)]
    exact h.null_none
  have hpush := hlinked'.push hlt hp (hnew _ hlt)
  rw [← hlinks] at hpush
  let bucket := home (Function.update hash.heap p (some entry)) hash.size p
  let linked : MyHash :=
    { hash with
      heap := heap'
      buckets := Function.update hash.buckets bucket p
      num := hash.num + 1 }
  refine ⟨linked, ?_, ⟨h.size_pos, ⟨_, hpush.congr_home
    fun _ _ q _ => hdata.home_eq hash.size q, ?_⟩, hcounted.congr hdata, ?_,
    fun _ _ hq => hdata.foreach_eq hflags hq⟩, hdata, rfl, fun hlt => hlt⟩
  · rw [linkEntry, ← hhome, hnum]
    simp only [hwrite, Option.bind_eq_bind, Option.bind_some]
    rfl
  · intro q
    show q ∈ Function.update chains bucket (p :: chains bucket) (home heap' hash.size q) <->
      heap' q ≠ none
    rw [hdata.home_eq, BucketChains.mem_push_iff hother, hmem q, ne_eq (heap' q), hdata.none_iff]
    cases eq_or_ne q p with
    | inl heq => simp [heq]
    | inr hne => rw [Function.update_of_ne hne, or_iff_right hne]
  · intro q hq
    rw [ne_eq, hdata.none_iff] at hq
    exact haddresses q hq

theorem linkEntry_spec (h : WellFormed hash) (hfree : hash.heap p = none) (hp : p ≠ NULL)
    (hprev : entry.prev = NULL)
    (hkeyed : Keyed hash.ops (Function.update hash.heap p (some entry))) :
    exists hash', linkEntry hash p entry = some hash' ∧
      Changed hash hash' (Function.update hash.heap p (some entry)) := by
  have hself : Function.update hash.heap p (some entry) p = some entry :=
    Function.update_self ..
  rcases h.chained.linkEntry_spec hfree hp (hkeyed.address_lt p (by simp)) hprev
    (hkeyed.foreach_eq p entry hself) with ⟨hash', hlink, hrechained⟩
  exact ⟨hash', hlink, hrechained.changed h.size_lt hkeyed⟩

/-- The two writes to the neighbours of an entry that is then freed, whatever was
written over its key and value. -/
theorem JoinedBy.unlink_writes {chains : Nat -> List Ptr} (h : JoinedBy hash chains)
    (hp : hash.heap p = some entry) {cleared : MyHashIter} (hnext : cleared.next = entry.next)
    (hprev : cleared.prev = entry.prev) :
    exists heap₁ heap₂,
      writePrev (Function.update hash.heap p (some cleared)) entry.next entry.prev =
        some heap₁ ∧
      writeNext heap₁ entry.prev entry.next = some heap₂ ∧
      SameData (Function.update hash.heap p none) (Function.update heap₂ p none) ∧
      heapLinks (Function.update heap₂ p none) =
        unlinked (heapLinks hash.heap) entry.next entry.prev p := by
  have hmem := h.mem_iff
  have hne : hash.heap p ≠ none := by simp [hp]
  have hpnull : p ≠ NULL := by
    rintro rfl
    exact hne h.null_none
  have hlt := home_lt h.size_pos hash.heap p
  have hlinksp := heapLinks_of_some hp
  have hexists : forall q, q = NULL ∨ q ∈ chains (home hash.heap hash.size p) ->
      q = NULL ∨ Function.update hash.heap p (some cleared) q ≠ none := by
    intro q hq
    cases eq_or_ne q p with
    | inl heq => simp [heq]
    | inr hqp =>
        rw [Function.update_of_ne hqp, ← hmem q]
        exact hq.imp_right fun hq => by
          rw [h.linked.atHome _ hlt q hq]
          exact hq
  have hneighbours := h.linked.neighbours hlt ((hmem p).mpr hne) hlinksp
  have hnull : Function.update hash.heap p (some cleared) NULL = none := by
    rw [Function.update_of_ne (Ne.symm hpnull)]
    exact h.null_none
  rcases writePrev_spec entry.prev hnull (hexists _ hneighbours.left) with
    ⟨heap₁, hwrite₁, hlinks₁, hdata₁⟩
  have hprev₁ : entry.prev = NULL ∨ heap₁ entry.prev ≠ none := by
    rw [ne_eq, hdata₁.none_iff]
    exact hexists _ hneighbours.right
  rcases writeNext_spec entry.next (hdata₁.none_iff.mpr hnull) hprev₁ with
    ⟨heap₂, hwrite₂, hlinks₂, hdata₂⟩
  refine ⟨heap₁, heap₂, hwrite₁, hwrite₂, ?_, ?_⟩
  · have hrest := (hdata₁.trans hdata₂).update_same p none
    rw [Function.update_idem] at hrest
    exact hrest
  · rw [heapLinks_update_none, hlinks₂, hlinks₁, heapLinks_update, hnext, hprev, ← hlinksp,
      Function.update_eq_self, unlinked]

theorem JoinedBy.num_pred {chains : Nat -> List Ptr} (h : JoinedBy hash chains)
    (hp : hash.heap p ≠ none) : sizetSub hash.num 1 = hash.num - 1 := by
  refine sizetSub_of_le ?_ (h.counted.lt h.address_lt h.null_none)
  rcases h.counted with ⟨entries, hentries, hcard⟩
  rw [hcard]
  exact Finset.card_pos.mpr ⟨p, (hentries p).mpr hp⟩

theorem JoinedBy.unlinkEntry_spec {chains : Nat -> List Ptr} (h : JoinedBy hash chains)
    (hp : hash.heap p = some entry)
    (log : List Event) (cleared : MyHashIter) (hnext : cleared.next = entry.next)
    (hprev : cleared.prev = entry.prev) (hhash : cleared.keyHash = entry.keyHash) :
    exists hash', unlinkEntry
      { hash with heap := Function.update hash.heap p (some cleared), log := log }
        p cleared = some hash' ∧
        JoinedBy hash' (Function.update chains (home hash.heap hash.size p)
          ((chains (home hash.heap hash.size p)).erase p)) ∧
        SameData (Function.update hash.heap p none) hash'.heap ∧ hash'.ops = hash.ops ∧
        hash'.size = hash.size := by
  have hlinked := h.linked
  have hmem := h.mem_iff
  have hne : hash.heap p ≠ none := by simp [hp]
  have hlt := home_lt h.size_pos hash.heap p
  rcases h.unlink_writes hp hnext hprev with ⟨heap₁, heap₂, hwrite₁, hwrite₂, hdata, hlinks⟩
  let bucket := home hash.heap hash.size p
  have hunlink := hlinked.unlink hlt ((hmem p).mpr hne) (heapLinks_of_some hp)
  rw [← hlinks] at hunlink
  have hother : forall q, q ≠ p -> home (Function.update heap₂ p none) hash.size q =
      home hash.heap hash.size q := by
    intro q hq
    rw [hdata.home_eq, home, home, Function.update_of_ne hq]
  have hcounted := h.counted.remove hne
  let rest : MyHash :=
    { hash with
      heap := Function.update heap₂ p none
      buckets := if entry.prev = NULL then
          Function.update hash.buckets bucket entry.next
        else
          hash.buckets
      num := hash.num - 1
      log := .free p :: log }
  refine ⟨rest, ?_, ⟨h.size_pos, hunlink.congr_home ?_, ?_, hcounted.congr hdata, ?_⟩, hdata,
    rfl, rfl⟩
  · have hbucket : HASH_INDEX entry.keyHash hash.size = bucket :=
      (home_of_some hash.size hp).symm
    rw [unlinkEntry, hnext, hprev, hhash]
    simp only [hwrite₁, hwrite₂, Option.bind_eq_bind, Option.bind_some, h.num_pred hne, hbucket]
    rfl
  · intro b hb q hq
    refine hother q ?_
    rintro rfl
    exact hlinked.not_mem_unlink hlt hb hq
  · intro q
    show q ∈ Function.update chains bucket ((chains bucket).erase p)
      (home (Function.update heap₂ p none) hash.size q) <->
        Function.update heap₂ p none q ≠ none
    rw [hlinked.mem_unlink_iff hlt (home_lt h.size_pos _ p) hother, hmem q,
      ne_eq (Function.update heap₂ p none q), hdata.none_iff]
    cases eq_or_ne q p with
    | inl heq => simp [heq]
    | inr hqp => rw [Function.update_of_ne hqp, and_iff_right hqp]
  · intro q hq
    rw [ne_eq, hdata.none_iff] at hq
    rcases Option.ne_none_iff_exists'.mp hq with ⟨other, hother⟩
    exact h.address_lt q (by simp [(update_none_cases hother).right])

theorem Joined.unlinkEntry_spec (h : Joined hash) (hp : hash.heap p = some entry)
    (log : List Event) (cleared : MyHashIter) (hnext : cleared.next = entry.next)
    (hprev : cleared.prev = entry.prev) (hhash : cleared.keyHash = entry.keyHash) :
    exists hash', unlinkEntry
      { hash with heap := Function.update hash.heap p (some cleared), log := log }
        p cleared = some hash' ∧ Joined hash' ∧
        SameData (Function.update hash.heap p none) hash'.heap ∧ hash'.ops = hash.ops ∧
        hash'.size = hash.size := by
  rcases h.exists_by with ⟨chains, hby⟩
  rcases hby.unlinkEntry_spec hp log cleared hnext hprev hhash with
    ⟨hash', hunlink, hjoined, hrest⟩
  exact ⟨hash', hunlink, hjoined.joined, hrest⟩

theorem Chained.unlinkEntry_spec (h : Chained hash) (hp : hash.heap p = some entry)
    (log : List Event) (cleared : MyHashIter) (hnext : cleared.next = entry.next)
    (hprev : cleared.prev = entry.prev) (hhash : cleared.keyHash = entry.keyHash) :
    exists hash', unlinkEntry
      { hash with heap := Function.update hash.heap p (some cleared), log := log }
        p cleared = some hash' ∧
        Rechained hash hash' (Function.update hash.heap p none) := by
  rcases h.joined.unlinkEntry_spec hp log cleared hnext hprev hhash with
    ⟨hash', hunlink, hjoined, hdata, hops, hsize⟩
  have hflags : forall q other, hash'.heap q = some other -> other.foreach = 0 := by
    intro q other hq
    refine hdata.foreach_eq ?_ hq
    intro r iter hr
    exact h.foreach_eq r iter (update_none_cases hr).right
  exact ⟨hash', hunlink, hjoined.chained hflags, hdata, hops, fun hlt => hsize ▸ hlt⟩

theorem unlinkEntry_spec (h : WellFormed hash) (hp : hash.heap p = some entry)
    (log : List Event) (cleared : MyHashIter) (hnext : cleared.next = entry.next)
    (hprev : cleared.prev = entry.prev) (hhash : cleared.keyHash = entry.keyHash) :
    exists hash', unlinkEntry
      { hash with heap := Function.update hash.heap p (some cleared), log := log }
        p cleared = some hash' ∧
        Changed hash hash' (Function.update hash.heap p none) := by
  rcases h.chained.unlinkEntry_spec hp log cleared hnext hprev hhash with
    ⟨hash', hunlink, hrechained⟩
  have hkeyed : Keyed hash.ops (Function.update hash.heap p none) :=
    h.keyed.mono fun _ _ hq => (update_none_cases hq).right
  exact ⟨hash', hunlink, hrechained.changed h.size_lt hkeyed⟩

/-!
## What deletion does, if it succeeds
-/

theorem writeIter_data {heap heap' : Heap} {f : MyHashIter -> MyHashIter}
    (hbare : forall iter, (f iter).bare = iter.bare) (h : writeIter heap p f = some heap') :
    SameData heap heap' := by
  rcases Option.map_eq_some_iff.mp h with ⟨iter, hiter, hheap⟩
  subst hheap
  exact SameData.update hiter (hbare iter)

theorem writePrev_data {heap heap' : Heap} {prev : Ptr} (h : writePrev heap p prev = some heap') :
    SameData heap heap' := by
  rw [writePrev] at h
  split at h
  · cases h
    exact SameData.refl heap
  · exact writeIter_data (by intro iter; rfl) h

theorem writeNext_data {heap heap' : Heap} {next : Ptr} (h : writeNext heap p next = some heap') :
    SameData heap heap' := by
  rw [writeNext] at h
  split at h
  · cases h
    exact SameData.refl heap
  · exact writeIter_data (by intro iter; rfl) h

theorem unlinkEntry_freed {hash' : MyHash} (h : unlinkEntry hash p entry = some hash') :
    SameData (Function.update hash.heap p none) hash'.heap ∧
      hash'.log = .free p :: hash.log := by
  simp only [unlinkEntry, Option.bind_eq_bind, Option.bind_eq_some_iff] at h
  rcases h with ⟨heap₁, hprev, heap₂, hnext, hhash⟩
  have hdata := (writePrev_data hprev).trans (writeNext_data hnext)
  rw [← Option.some.inj hhash]
  exact ⟨hdata.update_same p none, rfl⟩

theorem logged_heap (set : Bool) (event : Event) : (hash.logged set event).heap = hash.heap := by
  cases set with
  | false => rfl
  | true => rfl

theorem length_le_logged (set : Bool) (event : Event) :
    hash.log.length <= (hash.logged set event).log.length := by
  cases set with
  | false => exact Nat.le_refl _
  | true => exact Nat.le_succ _

theorem myHashIterDelete_freed {hash' : MyHash} (hp : p ≠ NULL) (hentry : hash.heap p = some entry)
    (hflag : entry.foreach = 0) (h : myHashIterDelete hash p = some hash') :
    SameData (Function.update hash.heap p none) hash'.heap ∧
      hash.log.length < hash'.log.length := by
  rw [myHashIterDelete, if_neg hp, hentry] at h
  simp only [Option.bind_eq_bind, Option.bind_some, hflag, ne_eq, not_true_eq_false,
    if_false] at h
  rcases unlinkEntry_freed h with ⟨hdata, hlog⟩
  simp only [logged_heap, Function.update_idem] at hdata
  constructor
  · exact hdata
  · rw [hlog]
    exact Nat.lt_succ_of_le ((length_le_logged ..).trans (length_le_logged ..))

end ChainedHash
end MyLibs
