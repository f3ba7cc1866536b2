import MyLibs.ChainedHash.Deletions
import MyLibs.ChainedHash.Runs
import MyLibs.Foundation.Costs

/-!
# What growing costs

The functions of `my_hash.c` that may call `rehash` again, with every entry counted that
its inner loop takes off an old chain. A rehash moves each entry of the table once, and
the entries added since the last one pay for it.
-/

namespace MyLibs
namespace ChainedHash

open Foundation

/-!
## The functions with the entries they move
-/

def rehashChainCosted (size : Nat) : Nat -> Ptr -> Heap × (Nat -> Ptr) ->
    Costed (Heap × (Nat -> Ptr))
  | 0, _, _ => .fails
  | fuel + 1, pre, (heap, iter) =>
      if pre = NULL then
        .ends 0 (heap, iter)
      else
        (Costed.ends 1 ()).andThen fun _ =>
        (Costed.ofOption (heap pre)).andThen fun entry =>
        let idx := HASH_INDEX entry.keyHash size
        (Costed.ofOption
          (writeIter heap pre fun entry => { entry with next := iter idx })).andThen fun heap =>
        (Costed.ofOption (writePrev heap (iter idx) pre)).andThen fun heap =>
        (Costed.ofOption
          (writeIter heap pre fun entry => { entry with prev := NULL })).andThen fun heap =>
        rehashChainCosted size fuel entry.next (heap, Function.update iter idx pre)

def rehashBucketsCosted (hash : MyHash) (size : Nat) : List Nat -> Heap × (Nat -> Ptr) ->
    Costed (Heap × (Nat -> Ptr))
  | [], state => .ends 0 state
  | i :: rest, state =>
      (rehashChainCosted size (hash.num + 1) (hash.buckets i) state).andThen fun state =>
        rehashBucketsCosted hash size rest state

def rehashCosted (HASH_GROW_STEP : Nat) (hash : MyHash) (callocOk : Bool) : Costed MyHash :=
  let size := uint (HASH_GROW_STEP * hash.size)
  if !callocOk || 2 ^ 31 <= size then
    .ends 0 hash
  else
    (rehashBucketsCosted hash size (List.range hash.size)
      (hash.heap, fun _ => NULL)).andThen fun (heap, iter) =>
        .ends 0 { hash with heap := heap, buckets := iter, size := size }

def rehashIfFullCosted (HASH_GROW_STEP : Nat) (hash : MyHash) (callocOk : Bool) :
    Costed MyHash :=
  if isFull hash then rehashCosted HASH_GROW_STEP hash callocOk else .ends 0 hash

def myHashLookaddCosted (HASH_GROW_STEP : Nat) (hash : MyHash) (key : Ptr)
    (outcome : Outcome) : Costed (Ptr × MyHash) :=
  if key = NULL then
    .ends 0 (NULL, hash)
  else
    (Costed.ofOption (myHashLookup hash key)).andThen fun iter =>
    if iter ≠ NULL then
      .ends 0 (iter, hash)
    else if outcome.entry = NULL then
      .ends 0 (NULL, hash)
    else
      let hash := hash.logged hash.ops.keyDup (.keyDup key outcome.keyCopy)
      let entry := { MyHashIter.zero with
        key := if hash.ops.keyDup then outcome.keyCopy else key
        keyHash := hash.ops.hash key }
      (rehashIfFullCosted HASH_GROW_STEP hash outcome.buckets).andThen fun hash =>
      (Costed.ofOption (linkEntry hash outcome.entry entry)).andThen fun hash =>
      .ends 0 (outcome.entry, hash)

def setValue (value : Ptr) (outcome : Outcome) (added : Ptr × MyHash) :
    Option (Ptr × MyHash) := do
  let (iter, hash) := added
  if iter = NULL then
    some (NULL, hash)
  else
    let entry <- hash.heap iter
    let hash := hash.logged hash.ops.valueFree (.valueFree entry.value)
    let hash := hash.logged hash.ops.valueDup (.valueDup value outcome.valueCopy)
    let heap <- writeIter hash.heap iter fun entry =>
      { entry with value := if hash.ops.valueDup then outcome.valueCopy else value }
    some (iter, { hash with heap := heap })

def myHashAddCosted (HASH_GROW_STEP : Nat) (hash : MyHash) (key value : Ptr)
    (outcome : Outcome) : Costed (Ptr × MyHash) :=
  (myHashLookaddCosted HASH_GROW_STEP hash key outcome).andThen fun added =>
    Costed.ofOption (setValue value outcome added)

def Call.applyCosted (HASH_GROW_STEP : Nat) (hash : MyHash) : Call -> Costed MyHash
  | .lookadd key outcome =>
      (myHashLookaddCosted HASH_GROW_STEP hash key outcome).andThen fun added =>
        .ends 0 added.2
  | .add key value outcome =>
      (myHashAddCosted HASH_GROW_STEP hash key value outcome).andThen fun added =>
        .ends 0 added.2
  | .delete key => Costed.ofOption (myHashDelete hash key)

/-!
## Counting changes no result
-/

theorem rehashChainCosted_result (size fuel : Nat) (pre : Ptr) (state : Heap × (Nat -> Ptr)) :
    (rehashChainCosted size fuel pre state).result = rehashChain size fuel pre state := by
  induction fuel generalizing pre state with
  | zero => rfl
  | succ fuel ih =>
      rcases state with ⟨heap, iter⟩
      rw [rehashChainCosted, rehashChain]
      split
      · rfl
      · simp only [Costed.result_andThen, Costed.result_ofOption, Costed.result_ends,
          Option.bind_some, Option.bind_eq_bind, ih]

theorem rehashBucketsCosted_result (hash : MyHash) (size : Nat) (bs : List Nat)
    (state : Heap × (Nat -> Ptr)) :
    (rehashBucketsCosted hash size bs state).result = rehashBuckets hash size bs state := by
  induction bs generalizing state with
  | nil => rfl
  | cons b bs ih =>
      simp only [rehashBucketsCosted, rehashBuckets, Costed.result_andThen,
        rehashChainCosted_result, Option.bind_eq_bind, ih]

theorem rehashCosted_result (HASH_GROW_STEP : Nat) (hash : MyHash) (callocOk : Bool) :
    (rehashCosted HASH_GROW_STEP hash callocOk).result =
      rehash HASH_GROW_STEP hash callocOk := by
  rw [rehashCosted, rehash]
  split
  · rfl
  · simp only [Costed.result_andThen, rehashBucketsCosted_result, Costed.result_ends,
      Option.bind_eq_bind]

theorem rehashIfFullCosted_result (HASH_GROW_STEP : Nat) (hash : MyHash) (callocOk : Bool) :
    (rehashIfFullCosted HASH_GROW_STEP hash callocOk).result =
      rehashIfFull HASH_GROW_STEP hash callocOk := by
  rw [rehashIfFullCosted, rehashIfFull]
  split
  · exact rehashCosted_result HASH_GROW_STEP hash callocOk
  · rfl

theorem myHashLookaddCosted_result (HASH_GROW_STEP : Nat) (hash : MyHash) (key : Ptr)
    (outcome : Outcome) :
    (myHashLookaddCosted HASH_GROW_STEP hash key outcome).result =
      myHashLookadd HASH_GROW_STEP hash key outcome := by
  rw [myHashLookaddCosted, myHashLookadd]
  split
  · rfl
  · simp only [Costed.result_andThen, Costed.result_ofOption, Option.bind_eq_bind]
    congr 1
    funext iter
    split
    · rfl
    split
    · rfl
    · simp only [Costed.result_andThen, rehashIfFullCosted_result, Costed.result_ofOption,
        Costed.result_ends]

theorem Call.applyCosted_result (HASH_GROW_STEP : Nat) (hash : MyHash) (call : Call) :
    (call.applyCosted HASH_GROW_STEP hash).result =
      (call.apply HASH_GROW_STEP hash).map Prod.snd := by
  cases call with
  | lookadd key outcome =>
      rw [Call.applyCosted, Costed.result_andThen, myHashLookaddCosted_result, Call.apply]
      cases myHashLookadd HASH_GROW_STEP hash key outcome <;> rfl
  | add key value outcome =>
      rw [Call.applyCosted, Costed.result_andThen, myHashAddCosted, Costed.result_andThen,
        myHashLookaddCosted_result, Call.apply, myHashAdd]
      cases myHashLookadd HASH_GROW_STEP hash key outcome with
      | none => rfl
      | some added =>
          simp only [Option.bind_some, Costed.result_ofOption, Option.bind_eq_bind]
          show (setValue value outcome added).bind _ = (setValue value outcome added).map _
          cases setValue value outcome added <;> rfl
  | delete key =>
      rw [Call.applyCosted, Costed.result_ofOption, Call.apply]
      cases myHashDelete hash key <;> rfl

/-!
## A rehash moves every entry once
-/

/-- Every turn but the last moves one entry. -/
theorem rehashChainCosted_atMost (size fuel : Nat) (pre : Ptr) (state : Heap × (Nat -> Ptr)) :
    (rehashChainCosted size (fuel + 1) pre state).AtMost fuel := by
  induction fuel generalizing pre state with
  | zero =>
      rcases state with ⟨heap, iter⟩
      rw [rehashChainCosted]
      split
      · exact Costed.atMost_ends (Nat.le_refl 0) _
      · refine Costed.ensures_andThen fun _ _ _ => ?_
        refine Costed.ensures_ofOption_andThen fun entry _ => ?_
        refine Costed.ensures_ofOption_andThen fun heap₁ _ => ?_
        refine Costed.ensures_ofOption_andThen fun heap₂ _ => ?_
        refine Costed.ensures_ofOption_andThen fun heap₃ _ => ?_
        exact Costed.ensures_fails _
  | succ fuel ih =>
      rcases state with ⟨heap, iter⟩
      rw [rehashChainCosted]
      split
      · exact Costed.atMost_ends (Nat.zero_le _) _
      · apply Costed.atMost_ends_andThen (Nat.le_of_eq (Nat.add_comm 1 fuel))
        refine Costed.ensures_ofOption_andThen fun entry _ => ?_
        refine Costed.ensures_ofOption_andThen fun heap₁ _ => ?_
        refine Costed.ensures_ofOption_andThen fun heap₂ _ => ?_
        refine Costed.ensures_ofOption_andThen fun heap₃ _ => ?_
        exact ih _ _

theorem rehashChainCosted_mono {size fuel fuel' cost : Nat} {pre : Ptr}
    {state result : Heap × (Nat -> Ptr)} (hmore : fuel <= fuel')
    (h : rehashChainCosted size fuel pre state = .ends cost result) :
    rehashChainCosted size fuel' pre state = .ends cost result := by
  induction fuel generalizing fuel' cost pre state result with
  | zero => cases h
  | succ fuel ih =>
      cases fuel' with
      | zero => cases hmore
      | succ fuel' =>
          rcases state with ⟨heap, iter⟩
          rw [rehashChainCosted] at h ⊢
          split
          · rename_i hnull
            rw [if_pos hnull] at h
            exact h
          · rename_i hnull
            rw [if_neg hnull] at h
            refine Costed.andThen_mono (fun _ _ _ h => ?_) h
            refine Costed.andThen_mono (fun entry _ _ h => ?_) h
            refine Costed.andThen_mono (fun heap₁ _ _ h => ?_) h
            refine Costed.andThen_mono (fun heap₂ _ _ h => ?_) h
            refine Costed.andThen_mono (fun heap₃ _ _ h => ?_) h
            exact ih (Nat.le_of_succ_le_succ hmore) h

variable {heap : Heap} {size : Nat} {iter : Nat -> Ptr} {chains : Nat -> List Ptr}

theorem rehashChainCosted_spec (hsize : 0 < size) {fuel : Nat} {before pre : Ptr}
    {path : List Ptr} (hfuel : path.length < fuel)
    (hpath : Doubly (heapLinks heap) before pre path NULL)
    (hlinked : Linked heap iter size chains)
    (hnew : forall q, q ∈ path -> q ∉ chains (home heap size q)) :
    exists cost heap' iter' chains',
      rehashChainCosted size fuel pre (heap, iter) = .ends cost (heap', iter') ∧
        cost <= path.length ∧ Moved size heap chains path heap' iter' chains' := by
  rcases rehashChain_spec hsize (Nat.lt_succ_self path.length) hpath hlinked hnew with
    ⟨heap', iter', chains', hloop, hmoved⟩
  rw [← rehashChainCosted_result] at hloop
  rcases (rehashChainCosted_atMost size path.length pre (heap, iter)).satisfies hloop with
    ⟨cost, result, hends, hresult, hcost⟩
  subst hresult
  exact ⟨cost, heap', iter', chains', rehashChainCosted_mono hfuel hends, hcost, hmoved⟩

theorem rehashBucketsCosted_atMost (hash : MyHash) (hsize : 0 < size) {old : Nat -> List Ptr}
    {bs : List Nat} (hbs : bs.Nodup)
    (hfuel : forall b, b ∈ bs -> (old b).length <= hash.num)
    (hold : forall b, b ∈ bs ->
      Doubly (heapLinks heap) NULL (hash.buckets b) (old b) NULL)
    (hapart : forall b b', b ∈ bs -> b' ∈ bs -> b ≠ b' -> forall q, q ∈ old b -> q ∉ old b')
    (hlinked : Linked heap iter size chains)
    (hnew : forall b, b ∈ bs -> forall q, q ∈ old b -> q ∉ chains (home heap size q)) :
    (rehashBucketsCosted hash size bs (heap, iter)).AtMost (bs.flatMap old).length := by
  induction bs generalizing heap iter chains with
  | nil => exact Costed.atMost_ends (Nat.zero_le _) _
  | cons b bs ih =>
      have hb := List.mem_cons_self (a := b) (l := bs)
      have hbnot := (List.nodup_cons.mp hbs).left
      rcases rehashChainCosted_spec hsize (Nat.lt_succ_of_le (hfuel b hb)) (hold b hb) hlinked
        (hnew b hb) with ⟨cost, heap₁, iter₁, chains₁, hends, hcost, hmoved⟩
      have hother : forall b', b' ∈ bs -> forall q, q ∈ old b' -> q ∉ old b := by
        intro b' hb' q hq
        have hne : b' ≠ b := fun heq => hbnot (heq ▸ hb')
        exact hapart b' b (List.mem_cons_of_mem b hb') hb hne q hq
      have hnew' : forall b', b' ∈ bs -> forall q, q ∈ old b' ->
          q ∉ chains₁ (home heap₁ size q) := by
        intro b' hb' q hq
        rw [hmoved.data.home_eq, hmoved.mem_iff, not_or]
        exact ⟨hnew b' (List.mem_cons_of_mem b hb') q hq, hother b' hb' q hq⟩
      have hrest := ih (List.nodup_cons.mp hbs).right
        (fun b' hb' => hfuel b' (List.mem_cons_of_mem b hb'))
        (fun b' hb' => (hold b' (List.mem_cons_of_mem b hb')).congr fun q hq =>
          hmoved.rest q (hother b' hb' q hq) (hnew b' (List.mem_cons_of_mem b hb') q hq))
        (fun b' b'' hb' hb'' => hapart b' b'' (List.mem_cons_of_mem b hb')
          (List.mem_cons_of_mem b hb''))
        hmoved.linked hnew'
      rw [rehashBucketsCosted, hends, List.flatMap_cons, List.length_append]
      exact Costed.atMost_ends_andThen (Nat.add_le_add_right hcost _) hrest

theorem rehashCosted_ensures {HASH_GROW_STEP : Nat} {hash : MyHash} (h : Chained hash)
    (hpos : 0 < HASH_GROW_STEP * hash.size) (hlt : HASH_GROW_STEP * hash.size < 2 ^ 31) :
    (rehashCosted HASH_GROW_STEP hash true).Ensures fun cost grown =>
      cost <= hash.num ∧ grown.num = hash.num ∧ grown.size = HASH_GROW_STEP * hash.size := by
  have hsize : uint (HASH_GROW_STEP * hash.size) = HASH_GROW_STEP * hash.size :=
    uint_of_lt (Nat.lt_trans hlt (by decide))
  rcases h.joined.exists_by with ⟨old, hby⟩
  have hlinked := hby.linked
  have hall : ((List.range hash.size).flatMap old).length = hash.num := by
    rw [List.range_eq_range']
    exact hby.entries_length
  have hempty : Linked hash.heap (fun _ => NULL) (HASH_GROW_STEP * hash.size) fun _ => [] :=
    ⟨hlinked.nil_none, fun _ _ => rfl, fun _ _ _ hq => absurd hq List.not_mem_nil⟩
  have hfuel : forall b, b ∈ List.range hash.size -> (old b).length <= hash.num := by
    intro b hb
    rcases List.append_of_mem hb with ⟨first, rest, hsplit⟩
    rw [← hall, hsplit, List.flatMap_append, List.flatMap_cons, List.length_append,
      List.length_append]
    omega
  have hbound := rehashBucketsCosted_atMost hash hpos List.nodup_range hfuel
    (fun b hb => hlinked.doubly b (List.mem_range.mp hb))
    (fun b b' hb hb' hne q hq hq' => hne
      (hlinked.bucket_unique (List.mem_range.mp hb) (List.mem_range.mp hb') hq hq'))
    hempty (fun _ _ _ _ hq => absurd hq List.not_mem_nil)
  rw [hall] at hbound
  rw [rehashCosted, hsize]
  simp only [Bool.not_true, Bool.false_or, decide_eq_true_eq, if_neg (Nat.not_le.mpr hlt)]
  refine Costed.ensures_andThen fun cost state hends => ?_
  exact Costed.ensures_ends ⟨hbound cost state hends, rfl, rfl⟩

/-!
## The entries added pay for growing
-/

variable {hash : MyHash} {HASH_GROW_STEP : Nat} {outcome : Outcome}

def potential (hash : MyHash) : Nat :=
  2 * (hash.num - hash.size)

/-- The table has not outgrown its buckets by more than one entry. -/
def Spacious (hash : MyHash) : Prop :=
  hash.num <= HASH_FULL_ITERATE * hash.size + 1

theorem isFull_iff (hsize : hash.size < 2 ^ 31) :
    isFull hash = true <-> HASH_FULL_ITERATE * hash.size < hash.num := by
  have hlt : HASH_FULL_ITERATE * hash.size < 2 ^ 64 := by
    rw [HASH_FULL_ITERATE]
    omega
  rw [isFull, decide_eq_true_eq, sizet, Nat.mod_eq_of_lt hlt]

theorem rehashIfFullCosted_ensures (h : WellFormed hash) (hstep : 2 <= HASH_GROW_STEP)
    (hfits : GrowthFits HASH_GROW_STEP hash) :
    (rehashIfFullCosted HASH_GROW_STEP hash true).Ensures fun cost grown =>
      grown.num = hash.num ∧
        (cost = 0 ∧ hash.num <= HASH_FULL_ITERATE * hash.size ∧ grown.size = hash.size ∨
          cost <= hash.num ∧ HASH_FULL_ITERATE * hash.size < hash.num ∧
            2 * hash.size <= grown.size) := by
  have hfull := isFull_iff h.size_lt
  rw [rehashIfFullCosted]
  split
  · rename_i hgrows
    have hlt := hfits hgrows
    have hdouble : 2 * hash.size <= HASH_GROW_STEP * hash.size :=
      Nat.mul_le_mul_right _ hstep
    have hpos := h.size_pos
    have hgrown := rehashCosted_ensures h.chained (by omega) hlt
    refine hgrown.mono fun cost grown hends => ⟨hends.right.left, Or.inr ?_⟩
    refine ⟨hends.left, hfull.mp hgrows, ?_⟩
    rw [hends.right.right]
    exact hdouble
  · rename_i hstays
    exact Costed.ensures_ends ⟨rfl, Or.inl ⟨rfl, Nat.not_lt.mp (mt hfull.mpr hstays), rfl⟩⟩

/-- A new entry adds one, and saves up two. -/
theorem linkEntry_num {p : Ptr} {entry : MyHashIter} {hash' : MyHash}
    (h : linkEntry hash p entry = some hash') :
    hash'.num <= hash.num + 1 ∧ hash'.size = hash.size := by
  rcases Option.bind_eq_some_iff.mp h with ⟨heap', _, hresult⟩
  cases hresult
  exact ⟨Nat.mod_le _ _, rfl⟩

def PaidFor (hash : MyHash) (charge cost : Nat) (hash' : MyHash) : Prop :=
  Spacious hash' ∧ cost + potential hash' <= potential hash + charge

theorem PaidFor.unchanged (hspacious : Spacious hash) (charge : Nat) :
    PaidFor hash charge 0 hash := by
  refine ⟨hspacious, ?_⟩
  omega

theorem PaidFor.of_num_le {hash' : MyHash} (hspacious : Spacious hash)
    (hnum : hash'.num <= hash.num) (hsize : hash'.size = hash.size) (charge : Nat) :
    PaidFor hash charge 0 hash' := by
  rw [Spacious] at hspacious
  rw [PaidFor, Spacious, potential, potential, hsize]
  omega

theorem PaidFor.added {grown hash' : MyHash} {cost : Nat} (hpos : 0 < hash.size)
    (hspacious : Spacious hash)
    (hgrown : grown.num = hash.num ∧
      (cost = 0 ∧ hash.num <= HASH_FULL_ITERATE * hash.size ∧ grown.size = hash.size ∨
        cost <= hash.num ∧ HASH_FULL_ITERATE * hash.size < hash.num ∧
          2 * hash.size <= grown.size))
    (hnum : hash'.num <= grown.num + 1 ∧ hash'.size = grown.size) :
    PaidFor hash 3 cost hash' := by
  rw [Spacious, HASH_FULL_ITERATE] at hspacious
  rw [HASH_FULL_ITERATE] at hgrown
  rw [PaidFor, Spacious, potential, potential, HASH_FULL_ITERATE]
  omega

theorem myHashLookaddCosted_ensures (h : WellFormed hash) (hspacious : Spacious hash)
    (hstep : 2 <= HASH_GROW_STEP) (hplain : hash.ops.Plain)
    (hfits : GrowthFits HASH_GROW_STEP hash) (hroom : outcome.buckets = true) (key : Ptr) :
    (myHashLookaddCosted HASH_GROW_STEP hash key outcome).Ensures fun cost added =>
      PaidFor hash 3 cost added.2 := by
  have hsame := PaidFor.unchanged hspacious 3
  rw [myHashLookaddCosted]
  split
  · exact Costed.ensures_ends hsame
  refine Costed.ensures_ofOption_andThen fun iter _ => ?_
  split
  · exact Costed.ensures_ends hsame
  split
  · exact Costed.ensures_ends hsame
  · simp only [MyHash.logged, hplain.keyDup, Bool.false_eq_true, if_false, hroom]
    refine Costed.ensures_andThen fun cost grown hends => ?_
    have hgrown := rehashIfFullCosted_ensures h hstep hfits cost grown hends
    refine Costed.ensures_ofOption_andThen fun hash' hlink => ?_
    exact Costed.ensures_ends (PaidFor.added h.size_pos hspacious hgrown (linkEntry_num hlink))

theorem setValue_num {value : Ptr} {added after : Ptr × MyHash}
    (h : setValue value outcome added = some after) :
    after.2.num = added.2.num ∧ after.2.size = added.2.size := by
  rcases added with ⟨iter, hash⟩
  rw [setValue] at h
  split at h
  · cases h
    exact ⟨rfl, rfl⟩
  · rcases Option.bind_eq_some_iff.mp h with ⟨entry, _, h⟩
    rcases Option.bind_eq_some_iff.mp h with ⟨heap, _, hresult⟩
    have hafter := Option.some.inj hresult
    rw [← hafter]
    simp only [MyHash.logged]
    split <;> split <;> exact ⟨rfl, rfl⟩

/-- What a call is charged: only one that may add an entry pays. -/
def Call.charge : Call -> Nat
  | .lookadd _ _ => 3
  | .add _ _ _ => 3
  | .delete _ => 0

def Call.HasRoom : Call -> Prop
  | .lookadd _ outcome => outcome.buckets = true
  | .add _ _ outcome => outcome.buckets = true
  | .delete _ => True

theorem unlinkEntry_num {p : Ptr} {entry : MyHashIter} {hash' : MyHash}
    (h : unlinkEntry hash p entry = some hash') :
    hash'.num = sizetSub hash.num 1 ∧ hash'.size = hash.size := by
  rcases Option.bind_eq_some_iff.mp h with ⟨heap₁, _, h⟩
  rcases Option.bind_eq_some_iff.mp h with ⟨heap₂, _, hresult⟩
  have hafter := Option.some.inj hresult
  rw [← hafter]
  exact ⟨rfl, rfl⟩

theorem myHashDelete_num {key : Ptr} {hash' : MyHash} (h : WellFormed hash)
    (hplain : hash.ops.Plain) (hdelete : myHashDelete hash key = some hash') :
    hash'.num <= hash.num ∧ hash'.size = hash.size := by
  rcases Option.bind_eq_some_iff.mp hdelete with ⟨iter, _, hdelete⟩
  rw [myHashIterDelete] at hdelete
  split at hdelete
  · cases hdelete
    exact ⟨Nat.le_refl _, rfl⟩
  · rcases Option.bind_eq_some_iff.mp hdelete with ⟨entry, hentry, hdelete⟩
    simp only [MyHash.logged, hplain.valueFree, hplain.keyFree, Bool.false_eq_true,
      if_false] at hdelete
    split at hdelete
    · have hafter := Option.some.inj hdelete
      rw [← hafter]
      exact ⟨Nat.le_refl _, rfl⟩
    · have hunlinked := unlinkEntry_num hdelete
      rcases h.chained.joined.exists_by with ⟨chains, hby⟩
      have hpred := hby.num_pred (p := iter) (by rw [hentry]; exact Option.some_ne_none entry)
      refine ⟨?_, hunlinked.right⟩
      rw [hunlinked.left]
      show sizetSub hash.num 1 <= hash.num
      rw [hpred]
      exact Nat.sub_le _ _

theorem Call.applyCosted_ensures (h : WellFormed hash) (hspacious : Spacious hash)
    (hstep : 2 <= HASH_GROW_STEP) (hplain : hash.ops.Plain) {call : Call}
    (hallowed : call.Allowed HASH_GROW_STEP hash) (hroom : call.HasRoom) :
    (call.applyCosted HASH_GROW_STEP hash).Ensures fun cost hash' =>
      PaidFor hash call.charge cost hash' := by
  cases call with
  | lookadd key outcome =>
      rw [Call.applyCosted]
      refine Costed.ensures_andThen fun cost added hends => ?_
      have hpaid := myHashLookaddCosted_ensures h hspacious hstep hplain hallowed.right hroom
        key cost added hends
      exact Costed.ensures_ends hpaid
  | add key value outcome =>
      rw [Call.applyCosted]
      refine Costed.ensures_andThen fun cost after hends => ?_
      have hadd : (myHashAddCosted HASH_GROW_STEP hash key value outcome).Ensures
          fun cost after => PaidFor hash 3 cost after.2 := by
        refine Costed.ensures_andThen fun cost added hends => ?_
        have hpaid := myHashLookaddCosted_ensures h hspacious hstep hplain hallowed.right
          hroom key cost added hends
        intro more after hvalue
        rcases Costed.eq_some_of_ofOption hvalue with ⟨hzero, hvalue⟩
        have hnum := setValue_num hvalue
        rw [hzero, PaidFor, Spacious, potential, hnum.left, hnum.right]
        exact hpaid
      exact Costed.ensures_ends (hadd cost after hends)
  | delete key =>
      intro cost hash' hends
      rcases Costed.eq_some_of_ofOption hends with ⟨hzero, hdelete⟩
      have hnum := myHashDelete_num h hplain hdelete
      rw [hzero]
      exact PaidFor.of_num_le hspacious hnum.left hnum.right 0

/-!
## Whole runs
-/

def Call.Permitted (HASH_GROW_STEP : Nat) (hash : MyHash) (call : Call) : Prop :=
  call.Allowed HASH_GROW_STEP hash ∧ call.HasRoom

theorem Run.counted {start : MyHash} {calls : List Call}
    (hroom : forall call, call ∈ calls -> call.HasRoom)
    (h : Run HASH_GROW_STEP start calls hash) :
    exists cost, CountedRun (fun hash call => Call.applyCosted HASH_GROW_STEP hash call)
      (Call.Permitted HASH_GROW_STEP) start calls cost hash := by
  induction h with
  | nil => exact ⟨0, CountedRun.nil⟩
  | @snoc calls hash hash' call ret _ hallowed hcall ih =>
      rcases ih (fun call hmem => hroom call (List.mem_append_left _ hmem)) with ⟨cost, hrun⟩
      have hresult : (call.applyCosted HASH_GROW_STEP hash).result = some hash' := by
        rw [Call.applyCosted_result, hcall]
        rfl
      cases hends : call.applyCosted HASH_GROW_STEP hash with
      | fails =>
          rw [hends] at hresult
          cases hresult
      | ends more after =>
          rw [hends] at hresult
          cases hresult
          exact ⟨cost + more, hrun.snoc ⟨hallowed, hroom call (by simp)⟩ hends⟩

structure Kept (ops : MyHashOps) (hash : MyHash) : Prop where
  ops_eq : hash.ops = ops
  represents : exists map, Represents hash map
  spacious : Spacious hash

theorem Kept.step {ops : MyHashOps} (hkeys : ops.Lawful) (hplain : ops.Plain)
    (hstep : 2 <= HASH_GROW_STEP) (hkept : Kept ops hash) {call : Call}
    (hpermitted : call.Permitted HASH_GROW_STEP hash) :
    (call.applyCosted HASH_GROW_STEP hash).Ensures fun cost hash' =>
      Kept ops hash' ∧ cost + potential hash' <= potential hash + call.charge := by
  rcases hkept with ⟨rfl, ⟨map, hrep⟩, hspacious⟩
  intro cost hash' hends
  have hpaid := Call.applyCosted_ensures hrep.wellFormed hspacious hstep hplain
    hpermitted.left hpermitted.right cost hash' hends
  have hresult : (call.applyCosted HASH_GROW_STEP hash).result = some hash' := by
    rw [hends]
    rfl
  rw [Call.applyCosted_result] at hresult
  rcases Option.map_eq_some_iff.mp hresult with ⟨⟨ret, after⟩, hcall, hafter⟩
  have hafter : after = hash' := hafter
  subst hafter
  rcases hrep.step hkeys hplain (Nat.le_of_succ_le hstep) hpermitted.left with
    ⟨ret', hash'', hcall', hops, hrep'⟩
  rw [hcall] at hcall'
  cases hcall'
  exact ⟨⟨hops, ⟨_, hrep'⟩, hpaid.left⟩, hpaid.right⟩

end ChainedHash
end MyLibs
