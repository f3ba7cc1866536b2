import MyLibs.ChainedHash.Layout

/-!
# Growth

`rehash` takes the entries off the old chains one by one and puts each in front
of its new chain. What is left of the old chains keeps its links until its turn
comes.
-/

namespace MyLibs
namespace ChainedHash

open Foundation

variable {heap heap' : Heap} {size : Nat} {iter iter' : Nat -> Ptr}
  {chains chains' : Nat -> List Ptr} {path : List Ptr}

theorem relink_spec {pre start : Ptr} (hnull : heap NULL = none) (hpre : heap pre ≠ none)
    (hne : pre ≠ start) (hstart : start = NULL ∨ heap start ≠ none) :
    exists heap₁ heap₂ heap₃,
      (writeIter heap pre fun entry => { entry with next := start }) = some heap₁ ∧
        writePrev heap₁ start pre = some heap₂ ∧
        (writeIter heap₂ pre fun entry => { entry with prev := NULL }) = some heap₃ ∧
        heapLinks heap₃ = pushed (heapLinks heap) NULL start pre ∧ SameData heap heap₃ := by
  rcases writeIter_next_spec start hpre with ⟨heap₁, hwrite₁, hlinks₁, hdata₁⟩
  have hstart₁ : start = NULL ∨ heap₁ start ≠ none := by
    rw [ne_eq, hdata₁.none_iff]
    exact hstart
  rcases writePrev_spec pre (hdata₁.none_iff.mpr hnull) hstart₁ with
    ⟨heap₂, hwrite₂, hlinks₂, hdata₂⟩
  have hdata := hdata₁.trans hdata₂
  have hpre₂ : heap₂ pre ≠ none := by
    rw [ne_eq, hdata.none_iff]
    exact hpre
  rcases writeIter_prev_spec NULL hpre₂ with ⟨heap₃, hwrite₃, hlinks₃, hdata₃⟩
  refine ⟨heap₁, heap₂, heap₃, hwrite₁, hwrite₂, hwrite₃, ?_, hdata.trans hdata₃⟩
  rcases Option.ne_none_iff_exists'.mp hpre with ⟨entry, hentry⟩
  rw [hlinks₃, hlinks₂, hlinks₁]
  exact setPrev_setPrev_setNext (heapLinks_of_some hentry) hne

structure Moved (size : Nat) (heap : Heap) (chains : Nat -> List Ptr) (path : List Ptr)
    (heap' : Heap) (iter' : Nat -> Ptr) (chains' : Nat -> List Ptr) : Prop where
  linked : Linked heap' iter' size chains'
  data : SameData heap heap'
  mem_iff : forall q, q ∈ chains' (home heap size q) <->
    q ∈ chains (home heap size q) ∨ q ∈ path
  /-- Everything else keeps its links. -/
  rest : forall q, q ∉ path -> q ∉ chains (home heap size q) ->
    heapLinks heap' q = heapLinks heap q

theorem Moved.nil (h : Linked heap iter size chains) :
    Moved size heap chains [] heap iter chains where
  linked := h
  data := SameData.refl heap
  mem_iff := by simp
  rest := fun _ _ _ => rfl

theorem Moved.trans {heap'' : Heap} {iter'' : Nat -> Ptr} {chains'' : Nat -> List Ptr}
    {path' : List Ptr} (hfirst : Moved size heap chains path heap' iter' chains')
    (hsecond : Moved size heap' chains' path' heap'' iter'' chains'') :
    Moved size heap chains (path ++ path') heap'' iter'' chains'' where
  linked := hsecond.linked
  data := hfirst.data.trans hsecond.data
  mem_iff := by
    intro q
    have hq := hsecond.mem_iff q
    rw [hfirst.data.home_eq, hfirst.mem_iff] at hq
    rw [hq, List.mem_append, or_assoc]
  rest := by
    intro q hpath hchains
    rw [List.mem_append, not_or] at hpath
    have hchains' : q ∉ chains' (home heap' size q) := by
      rw [hfirst.data.home_eq, hfirst.mem_iff, not_or]
      exact ⟨hchains, hpath.left⟩
    rw [hsecond.rest q hpath.right hchains', hfirst.rest q hpath.left hchains]

theorem Moved.push {p : Ptr} (hsize : 0 < size) (hlinked : Linked heap iter size chains)
    (hp : heap p ≠ none) (hnew : p ∉ chains (home heap size p))
    (hlinks : heapLinks heap' =
      pushed (heapLinks heap) NULL (iter (home heap size p)) p)
    (hdata : SameData heap heap') :
    Moved size heap chains [p] heap' (Function.update iter (home heap size p) p)
      (Function.update chains (home heap size p) (p :: chains (home heap size p))) := by
  have hnull : p ≠ NULL := by
    rintro rfl
    exact hp (heapLinks_eq_none_iff.mp hlinked.nil_none)
  have hlt := home_lt hsize heap p
  refine ⟨?_, hdata, ?_, ?_⟩
  · have hpush := hlinked.push hlt hnull hnew
    rw [← hlinks] at hpush
    exact hpush.congr_home fun b _ q _ => hdata.home_eq size q
  · intro q
    rw [List.mem_singleton]
    cases eq_or_ne q p with
    | inl heq => simp [heq]
    | inr hne =>
        cases eq_or_ne (home heap size q) (home heap size p) with
        | inl hhome => simp [hhome, hne]
        | inr hhome => simp [Function.update_of_ne hhome, hne]
  · intro q hq hchains
    rw [List.mem_singleton] at hq
    rw [hlinks]
    cases hlinked.head_cases hlt with
    | inl hhead =>
        rw [hhead, pushed, setPrev_none _ hlinked.nil_none, Function.update_of_ne hq]
    | inr hhead =>
        refine pushed_of_ne NULL hq ?_
        rintro rfl
        rw [hlinked.atHome _ hlt _ hhead] at hchains
        exact hchains hhead

theorem rehashChain_spec (hsize : 0 < size) {fuel : Nat} {before pre : Ptr}
    (hfuel : path.length < fuel) (hpath : Doubly (heapLinks heap) before pre path NULL)
    (hlinked : Linked heap iter size chains)
    (hnew : forall q, q ∈ path -> q ∉ chains (home heap size q)) :
    exists heap' iter' chains',
      rehashChain size fuel pre (heap, iter) = some (heap', iter') ∧
        Moved size heap chains path heap' iter' chains' := by
  induction path generalizing fuel before pre heap iter chains with
  | nil =>
      cases fuel with
      | zero => cases hfuel
      | succ fuel =>
          rw [Doubly.nil_iff] at hpath
          exact ⟨heap, iter, chains, by rw [rehashChain, if_pos hpath], Moved.nil hlinked⟩
  | cons p path ih =>
      cases fuel with
      | zero => cases hfuel
      | succ fuel =>
          have hnodup := hpath.nodup hlinked.nil_none
          rcases hpath with ⟨hp, next, hplinks, htail⟩
          subst hp
          rcases exists_of_heapLinks hplinks with ⟨entry, hentry, hnext, _⟩
          have hpre : heap pre ≠ none := by simp [hentry]
          have hnull := heapLinks_eq_none_iff.mp hlinked.nil_none
          have hpreNull : pre ≠ NULL := by
            rintro rfl
            exact hpre hnull
          have hhome := home_of_some size hentry
          have hprenew := hnew pre (List.mem_cons_self ..)
          have hlt := home_lt hsize heap pre
          have hne : pre ≠ iter (home heap size pre) := by
            rintro heq
            cases hlinked.head_cases hlt with
            | inl hhead => exact hpreNull (heq.trans hhead)
            | inr hhead => exact hprenew (by rw [← heq] at hhead; exact hhead)
          have hhead : iter (home heap size pre) = NULL ∨
              heap (iter (home heap size pre)) ≠ none := by
            refine (hlinked.head_cases hlt).imp_right fun hmem => ?_
            rcases (hlinked.doubly _ hlt).exists_links hmem with ⟨_, _, hlinks⟩
            rcases exists_of_heapLinks hlinks with ⟨first, hfirst, _⟩
            simp [hfirst]
          rcases relink_spec hnull hpre hne hhead with
            ⟨heap₁, heap₂, heap₃, hwrite₁, hwrite₂, hwrite₃, hlinks, hdata⟩
          have hmoved := Moved.push hsize hlinked hpre hprenew hlinks hdata
          -- the rest of the old chain has not been touched
          have htail₃ : Doubly (heapLinks heap₃) pre next path NULL := by
            refine htail.congr fun q hq => hmoved.rest q ?_ ?_
            · rw [List.mem_singleton]
              rintro rfl
              exact (List.nodup_cons.mp hnodup).left hq
            · exact hnew q (List.mem_cons_of_mem pre hq)
          have hnew₃ : forall q, q ∈ path -> q ∉ Function.update chains (home heap size pre)
              (pre :: chains (home heap size pre)) (home heap₃ size q) := by
            intro q hq
            have hqpre : q ≠ pre := by
              rintro rfl
              exact (List.nodup_cons.mp hnodup).left hq
            rw [hdata.home_eq, hmoved.mem_iff, List.mem_singleton, not_or]
            exact ⟨hnew q (List.mem_cons_of_mem pre hq), hqpre⟩
          rcases ih (Nat.lt_of_succ_lt_succ hfuel) htail₃ hmoved.linked hnew₃ with
            ⟨heap', iter', chains', hloop, hrest⟩
          refine ⟨heap', iter', chains', ?_, hmoved.trans hrest⟩
          rw [rehashChain, if_neg hpreNull]
          simp only [hentry, Option.bind_eq_bind, Option.bind_some, ← hhome, hwrite₁,
            hwrite₂, hwrite₃, hnext]
          exact hloop

/-- The outer loop over the old buckets `bs`, whose chains are still as they
were. -/
theorem rehashBuckets_spec (hash : MyHash) (hsize : 0 < size) {old : Nat -> List Ptr}
    {bs : List Nat} (hbs : bs.Nodup)
    (hfuel : forall b, b ∈ bs -> (old b).length <= hash.num)
    (hold : forall b, b ∈ bs ->
      Doubly (heapLinks heap) NULL (hash.buckets b) (old b) NULL)
    (hapart : forall b b', b ∈ bs -> b' ∈ bs -> b ≠ b' -> forall q, q ∈ old b -> q ∉ old b')
    (hlinked : Linked heap iter size chains)
    (hnew : forall b, b ∈ bs -> forall q, q ∈ old b -> q ∉ chains (home heap size q)) :
    exists heap' iter' chains',
      rehashBuckets hash size bs (heap, iter) = some (heap', iter') ∧
        Moved size heap chains (bs.flatMap old) heap' iter' chains' := by
  induction bs generalizing heap iter chains with
  | nil => exact ⟨heap, iter, chains, rfl, Moved.nil hlinked⟩
  | cons b bs ih =>
      have hb := List.mem_cons_self (a := b) (l := bs)
      have hbnot := (List.nodup_cons.mp hbs).left
      rcases rehashChain_spec hsize (Nat.lt_succ_of_le (hfuel b hb)) (hold b hb) hlinked
        (hnew b hb) with ⟨heap₁, iter₁, chains₁, hloop, hmoved⟩
      have hother : forall b', b' ∈ bs -> forall q, q ∈ old b' -> q ∉ old b := by
        intro b' hb' q hq
        have hne : b' ≠ b := by
          rintro rfl
          exact hbnot hb'
        exact hapart b' b (List.mem_cons_of_mem b hb') hb hne q hq
      have hnew' : forall b', b' ∈ bs -> forall q, q ∈ old b' ->
          q ∉ chains₁ (home heap₁ size q) := by
        intro b' hb' q hq
        rw [hmoved.data.home_eq, hmoved.mem_iff, not_or]
        exact ⟨hnew b' (List.mem_cons_of_mem b hb') q hq, hother b' hb' q hq⟩
      rcases ih (List.nodup_cons.mp hbs).right
        (fun b' hb' => hfuel b' (List.mem_cons_of_mem b hb'))
        (fun b' hb' => (hold b' (List.mem_cons_of_mem b hb')).congr fun q hq =>
          hmoved.rest q (hother b' hb' q hq) (hnew b' (List.mem_cons_of_mem b hb') q hq))
        (fun b' b'' hb' hb'' => hapart b' b'' (List.mem_cons_of_mem b hb')
          (List.mem_cons_of_mem b hb''))
        hmoved.linked hnew' with ⟨heap', iter', chains', hrest, hmoved'⟩
      refine ⟨heap', iter', chains', ?_, ?_⟩
      · rw [rehashBuckets, hloop]
        exact hrest
      · rw [List.flatMap_cons]
        exact hmoved.trans hmoved'

/-!
## The whole of `rehash`
-/

theorem rehash_failed (HASH_GROW_STEP : Nat) (hash : MyHash) :
    rehash HASH_GROW_STEP hash false = some hash := by
  simp [rehash]

/-- Entries that hold the same things may be on any chains that link them all. -/
theorem Chained.relinked {hash : MyHash} (h : Chained hash) (hsize : 0 < size)
    (hdata : SameData hash.heap heap')
    (hlinked : Linked heap' iter' size chains')
    (hmem : forall p, p ∈ chains' (home heap' size p) <-> heap' p ≠ none) :
    Chained { hash with heap := heap', buckets := iter', size := size } where
  size_pos := hsize
  linked := ⟨chains', hlinked, hmem⟩
  counted := h.counted.congr hdata
  address_lt := fun _ hp => h.address_lt_congr hdata hp
  foreach_eq := fun _ _ hp => hdata.foreach_eq h.foreach_eq hp

/-- The entries stay, on more or fewer buckets: the new size is the one an
`unsigned int` keeps. -/
theorem Chained.rehash_spec {HASH_GROW_STEP : Nat} {hash : MyHash} (h : Chained hash)
    {callocOk : Bool} (hpos : callocOk = true -> 0 < uint (HASH_GROW_STEP * hash.size)) :
    exists hash', rehash HASH_GROW_STEP hash callocOk = some hash' ∧
      Rechained hash hash' hash.heap := by
  cases callocOk with
  | false => exact ⟨hash, rehash_failed HASH_GROW_STEP hash, Rechained.refl h⟩
  | true =>
      have hsize := hpos rfl
      generalize hnew : uint (HASH_GROW_STEP * hash.size) = size at hsize
      by_cases hlt : 2 ^ 31 <= size
      · refine ⟨hash, ?_, Rechained.refl h⟩
        rw [rehash, hnew, Bool.not_true, Bool.false_or, if_pos (decide_eq_true hlt)]
      · rcases h.linked with ⟨old, hold, hmem⟩
        rcases h.counted with ⟨entries, hentries, hnum⟩
        have hentry : forall b, b < hash.size -> forall q, q ∈ old b -> hash.heap q ≠ none := by
          intro b hb q hq
          rw [← hmem, hold.atHome b hb q hq]
          exact hq
        have hempty : Linked hash.heap (fun _ => NULL) size fun _ => [] :=
          ⟨hold.nil_none, fun _ _ => rfl, fun _ _ _ hq => by cases hq⟩
        have hbuckets := rehashBuckets_spec hash hsize List.nodup_range
          (fun b hb => by
            rw [hnum]
            exact length_le_card hold.nil_none (hold.doubly b (List.mem_range.mp hb))
              fun q hq => (hentries q).mpr (hentry b (List.mem_range.mp hb) q hq))
          (fun b hb => hold.doubly b (List.mem_range.mp hb))
          (fun b b' hb hb' hne q hq hq' => hne
            (hold.bucket_unique (List.mem_range.mp hb) (List.mem_range.mp hb') hq hq'))
          hempty (fun _ _ _ _ hq => by cases hq)
        rcases hbuckets with ⟨heap', iter', chains', hloop, hmoved⟩
        let grown : MyHash :=
          { hash with heap := heap', buckets := iter', size := size }
        refine ⟨grown, ?_, ?_, hmoved.data, rfl, fun _ => Nat.not_le.mp hlt⟩
        · rw [rehash, hnew]
          simp only [Bool.not_true, Bool.false_or, decide_eq_true_eq, if_neg hlt, hloop]
          rfl
        · refine h.relinked hsize hmoved.data hmoved.linked fun p => ?_
          rw [hmoved.data.home_eq, hmoved.mem_iff, ne_eq, hmoved.data.none_iff]
          constructor
          · intro hp
            rcases List.mem_flatMap.mp (hp.resolve_left List.not_mem_nil) with ⟨b, hb, hq⟩
            exact hentry b (List.mem_range.mp hb) p hq
          · intro hp
            refine Or.inr (List.mem_flatMap.mpr ⟨home hash.heap hash.size p, ?_, (hmem p).mpr hp⟩)
            exact List.mem_range.mpr (home_lt h.size_pos hash.heap p)

theorem rehash_spec {HASH_GROW_STEP : Nat} {hash : MyHash} (h : WellFormed hash)
    (hstep : 1 <= HASH_GROW_STEP) (hlt : HASH_GROW_STEP * hash.size < 2 ^ 31)
    (callocOk : Bool) : exists hash', rehash HASH_GROW_STEP hash callocOk = some hash' ∧
      Changed hash hash' hash.heap := by
  have hsize : uint (HASH_GROW_STEP * hash.size) = HASH_GROW_STEP * hash.size :=
    uint_of_lt (Nat.lt_trans hlt (by decide))
  have hpos : 0 < uint (HASH_GROW_STEP * hash.size) := by
    rw [hsize]
    exact Nat.mul_pos hstep h.size_pos
  rcases h.chained.rehash_spec (fun (_ : callocOk = true) => hpos) with
    ⟨hash', hrehash, hrechained⟩
  exact ⟨hash', hrehash, hrechained.changed h.size_lt h.keyed⟩

end ChainedHash
end MyLibs
