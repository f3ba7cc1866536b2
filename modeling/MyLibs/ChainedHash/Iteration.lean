import MyLibs.ChainedHash.Clearing

/-!
# Forward and backward steps

`my_hash_begin`, `my_hash_next` and `my_hash_pre`. The inner loop of the last one
evaluates `pre->next` without moving on, and the outer one ends before bucket 0.
-/

namespace MyLibs
namespace ChainedHash

open Foundation

/-- The loop of `my_hash_begin` and of `my_hash_next` over `count` buckets: the
first entry of the first one, from `i` on, that is not empty. -/
def firstFrom (hash : MyHash) : Nat -> Nat -> Ptr
  | 0, _ => NULL
  | count + 1, i =>
      if hash.buckets i ≠ NULL then hash.buckets i else firstFrom hash count (i + 1)

def myHashBegin (hash : MyHash) : Ptr :=
  firstFrom hash hash.size 0

/-- `idx = HASH_INDEX(k, n);`, where `idx` is an `int`. A number it cannot hold has
no meaning here. -/
def intIndex (k n : Nat) : Option Nat :=
  if HASH_INDEX k n < 2 ^ 31 then some (HASH_INDEX k n) else none

def myHashNext (hash : MyHash) (iter : Ptr) : Option Ptr :=
  if iter = NULL then
    some NULL
  else do
    let entry <- hash.heap iter
    if entry.next ≠ NULL then
      some entry.next
    else do
      let idx <- intIndex entry.keyHash hash.size
      some (firstFrom hash (hash.size - (idx + 1)) (idx + 1))

/-- The inner loop of `my_hash_pre`, at most `turns` times. -/
def preChain (hash : MyHash) : Nat -> Ptr -> Option Ptr
  | 0, _ => none
  | turns + 1, pre =>
      if pre = NULL then
        some NULL
      else do
        let entry <- hash.heap pre
        if entry.next = NULL then some pre else preChain hash turns pre

/-- The outer loop of `my_hash_pre`, from bucket `i` down. -/
def preBuckets (turns : Nat) (hash : MyHash) : Nat -> Option Ptr
  | 0 => some NULL
  | i + 1 => do
      let pre <- preChain hash turns (hash.buckets (i + 1))
      if pre ≠ NULL then some pre else preBuckets turns hash i

/-- `my_hash_pre`, where no loop takes more than `turns` turns. From `idx = 0` the
outer loop starts at -1 and ends at once. -/
def myHashPre (turns : Nat) (hash : MyHash) (iter : Ptr) : Option Ptr :=
  if iter = NULL then
    some NULL
  else do
    let entry <- hash.heap iter
    if entry.prev ≠ NULL then
      some entry.prev
    else do
      let idx <- intIndex entry.keyHash hash.size
      preBuckets turns hash (idx - 1)

/-- `my_hash_pre` comes back from every entry, it leads from the next entry back
to the one before, and from the first one nowhere. -/
structure Undoes (hash : MyHash) : Prop where
  pre_ends : forall e, hash.heap e ≠ none -> exists turns p, myHashPre turns hash e = some p
  pre_next : forall e f, hash.heap e ≠ none -> myHashNext hash e = some f -> f ≠ NULL ->
    exists turns, myHashPre turns hash f = some e
  pre_begin : exists turns, myHashPre turns hash (myHashBegin hash) = some NULL

/-- Bucket `b` has one entry. -/
def OneEntry (hash : MyHash) (b : Nat) : Prop :=
  exists iter, hash.heap (hash.buckets b) = some iter ∧ iter.next = NULL

/-- A bucket with entries that comes before another one with entries has one entry,
and is not bucket 0. -/
def Sparse (hash : MyHash) : Prop :=
  forall b b', b < b' -> b' < hash.size -> hash.buckets b ≠ NULL -> hash.buckets b' ≠ NULL ->
    b ≠ 0 ∧ OneEntry hash b

/-- Every entry is in a bucket whose number is an `int`. -/
def Indexed (hash : MyHash) : Prop :=
  forall p, hash.heap p ≠ none -> home hash.heap hash.size p < 2 ^ 31

variable {hash hash' : MyHash} {p key : Ptr} {b i turns : Nat}

/-!
## The loops
-/

theorem firstFrom_cases (hash : MyHash) (count i : Nat) :
    (firstFrom hash count i = NULL ∧
      forall j, i <= j -> j < i + count -> hash.buckets j = NULL) ∨
    exists j, i <= j ∧ j < i + count ∧ hash.buckets j ≠ NULL ∧
      firstFrom hash count i = hash.buckets j ∧
      forall k, i <= k -> k < j -> hash.buckets k = NULL := by
  induction count generalizing i with
  | zero => exact Or.inl ⟨rfl, fun j hij hji => absurd hij (by omega)⟩
  | succ count ih =>
      by_cases hfirst : hash.buckets i = NULL
      · have hrest : firstFrom hash (count + 1) i = firstFrom hash count (i + 1) := by
          rw [firstFrom, if_neg (not_not_intro hfirst)]
        have hbelow : forall j, i <= j -> i + 1 <= j ∨ hash.buckets j = NULL := by
          intro j hij
          cases Nat.eq_or_lt_of_le hij with
          | inl heq => exact Or.inr (heq ▸ hfirst)
          | inr hlt => exact Or.inl hlt
        rw [hrest]
        cases ih (i + 1) with
        | inl hempty =>
            refine Or.inl ⟨hempty.left, fun j hij hji => ?_⟩
            cases hbelow j hij with
            | inl hlt => exact hempty.right j hlt (by omega)
            | inr hnull => exact hnull
        | inr hfound =>
            rcases hfound with ⟨j, hij, hji, hne, heq, hskipped⟩
            refine Or.inr ⟨j, by omega, by omega, hne, heq, fun k hik hkj => ?_⟩
            cases hbelow k hik with
            | inl hlt => exact hskipped k hlt hkj
            | inr hnull => exact hnull
      · refine Or.inr ⟨i, Nat.le_refl i, by omega, hfirst, ?_,
          fun k hik hki => absurd hik (by omega)⟩
        rw [firstFrom, if_pos hfirst]

theorem preChain_null (hash : MyHash) (turns : Nat) :
    preChain hash (turns + 1) NULL = some NULL :=
  if_pos rfl

theorem preChain_one {iter : MyHashIter} (hp : p ≠ NULL) (hiter : hash.heap p = some iter)
    (hnext : iter.next = NULL) (turns : Nat) : preChain hash (turns + 1) p = some p := by
  rw [preChain, if_neg hp, hiter]
  exact if_pos hnext

/-- The inner loop never leaves a chain of several entries: every turn is at the same
one. -/
theorem preChain_stuck {iter : MyHashIter} (hp : p ≠ NULL) (hiter : hash.heap p = some iter)
    (hnext : iter.next ≠ NULL) (turns : Nat) : preChain hash turns p = none := by
  induction turns with
  | zero => rfl
  | succ turns ih =>
      rw [preChain, if_neg hp, hiter]
      exact (if_neg hnext).trans ih

theorem preBuckets_skip (hempty : forall k, b < k -> k <= i -> hash.buckets k = NULL)
    (hle : b <= i) (turns : Nat) :
    preBuckets (turns + 1) hash i = preBuckets (turns + 1) hash b := by
  induction i with
  | zero => rw [Nat.le_zero.mp hle]
  | succ i ih =>
      cases Nat.eq_or_lt_of_le hle with
      | inl heq => rw [heq]
      | inr hlt =>
          rw [preBuckets, hempty (i + 1) hlt (Nat.le_refl _), preChain_null]
          exact ih (fun k hbk hki => hempty k hbk (Nat.le_succ_of_le hki)) (Nat.le_of_lt_succ hlt)

theorem preBuckets_one (hb : b ≠ 0) (hne : hash.buckets b ≠ NULL) (hone : OneEntry hash b)
    (turns : Nat) : preBuckets (turns + 1) hash b = some (hash.buckets b) := by
  rcases hone with ⟨iter, hiter, hnext⟩
  rcases Nat.exists_eq_succ_of_ne_zero hb with ⟨c, hc⟩
  subst hc
  rw [preBuckets, preChain_one hne hiter hnext]
  exact if_pos hne

/-!
## Neighbours
-/

theorem Joined.links_at (h : Joined hash) (hp : hash.heap p ≠ none) :
    exists first rest iter, hash.heap p = some iter ∧ iter.next = rest.headD NULL ∧
      iter.prev = first.getLastD NULL ∧
      Doubly (heapLinks hash.heap) NULL (hash.buckets (home hash.heap hash.size p))
        (first ++ p :: rest) NULL := by
  rcases h.linked with ⟨chains, hlinked, hmem⟩
  have hdoubly := hlinked.doubly _ (home_lt h.size_pos hash.heap p)
  rcases List.append_of_mem ((hmem p).mpr hp) with ⟨first, rest, hsplit⟩
  rw [hsplit] at hdoubly
  rcases exists_of_heapLinks hdoubly.links_at with ⟨iter, hiter, hnext, hprev⟩
  exact ⟨first, rest, iter, hiter, hnext, hprev, hdoubly⟩

theorem Joined.first_of_prev (h : Joined hash) {iter : MyHashIter}
    (hp : hash.heap p = some iter) (hprev : iter.prev = NULL) :
    p = hash.buckets (home hash.heap hash.size p) := by
  rcases h.links_at (p := p) (by simp [hp]) with ⟨first, rest, iter', hiter, _, hlast, hdoubly⟩
  rw [hp] at hiter
  cases hiter
  rcases List.eq_nil_or_concat first with hempty | ⟨front, q, hfirst⟩
  · subst hempty
    exact hdoubly.left.symm
  · rw [hfirst, List.concat_eq_append, List.getLastD_concat, hprev] at hlast
    have hq : q ∈ first ++ p :: rest := by simp [hfirst]
    rcases hdoubly.exists_links hq with ⟨_, _, hlinks⟩
    rw [← hlast, heapLinks_eq_none_iff.mpr h.null_none] at hlinks
    cases hlinks

theorem Joined.prev_of_next (h : Joined hash) {iter : MyHashIter}
    (hp : hash.heap p = some iter) (hnext : iter.next ≠ NULL) :
    exists other, hash.heap iter.next = some other ∧ other.prev = p := by
  rcases h.links_at (p := p) (by simp [hp]) with ⟨first, rest, iter', hiter, hsecond, _, hdoubly⟩
  rw [hp] at hiter
  cases hiter
  cases rest with
  | nil => exact absurd hsecond hnext
  | cons q rest =>
      rw [show first ++ p :: q :: rest = (first ++ [p]) ++ q :: rest by simp] at hdoubly
      rcases exists_of_heapLinks hdoubly.links_at with ⟨other, hother, _, hprev⟩
      rw [List.getLastD_concat] at hprev
      rw [hsecond]
      exact ⟨other, hother, hprev⟩

theorem Joined.first_entry (h : Joined hash) (hb : b < hash.size) (hne : hash.buckets b ≠ NULL) :
    exists iter, hash.heap (hash.buckets b) = some iter ∧ iter.prev = NULL ∧
      home hash.heap hash.size (hash.buckets b) = b := by
  rcases h.linked with ⟨chains, hlinked, hmem⟩
  have hdoubly := hlinked.doubly b hb
  have hfirst := (hlinked.head_cases hb).resolve_left hne
  cases hchain : chains b with
  | nil =>
      rw [hchain] at hfirst
      cases hfirst
  | cons q rest =>
      rw [hchain] at hdoubly
      rcases hdoubly with ⟨hq, next, hlinks, _⟩
      rcases exists_of_heapLinks hlinks with ⟨iter, hiter, _, hprev⟩
      rw [← hq] at hiter
      exact ⟨iter, hiter, hprev, hlinked.atHome b hb _ hfirst⟩

theorem Joined.last_entry (h : Joined hash) (hb : b < hash.size) (hne : hash.buckets b ≠ NULL) :
    exists p iter, hash.heap p = some iter ∧ iter.next = NULL ∧
      home hash.heap hash.size p = b := by
  rcases h.linked with ⟨chains, hlinked, hmem⟩
  have hdoubly := hlinked.doubly b hb
  have hfirst := (hlinked.head_cases hb).resolve_left hne
  rcases List.eq_nil_or_concat (chains b) with hempty | ⟨front, p, hlast⟩
  · rw [hempty] at hfirst
    cases hfirst
  · rw [List.concat_eq_append] at hlast
    rw [hlast] at hdoubly
    rcases exists_of_heapLinks hdoubly.links_at with ⟨iter, hiter, hnext, _⟩
    exact ⟨p, iter, hiter, hnext, hlinked.atHome b hb p (by simp [hlast])⟩

theorem Joined.eq_of_one (h : Joined hash) (hp : hash.heap p ≠ none)
    (hone : OneEntry hash (home hash.heap hash.size p)) :
    p = hash.buckets (home hash.heap hash.size p) := by
  rcases hone with ⟨iter, hiter, hnext⟩
  rcases h.links_at hp with ⟨first, rest, other, hother, _, hprev, hdoubly⟩
  cases first with
  | nil => exact hdoubly.left.symm
  | cons q first =>
      -- then the entry is not the first one, which has a successor
      rcases hdoubly with ⟨hq, next, hlinks, htail⟩
      rw [← hq, heapLinks_of_some hiter, Option.some.injEq, Prod.mk.injEq] at hlinks
      rw [← hlinks.left, hnext] at htail
      have hempty := htail.unique (heapLinks_eq_none_iff.mpr h.null_none)
        (show Doubly (heapLinks hash.heap) NULL NULL [] NULL from rfl)
      simp at hempty

/-!
## One step
-/

theorem intIndex_of_lt {k n : Nat} (hlt : HASH_INDEX k n < 2 ^ 31) :
    intIndex k n = some (HASH_INDEX k n) :=
  if_pos hlt

theorem myHashPre_null (turns : Nat) (hash : MyHash) : myHashPre turns hash NULL = some NULL :=
  if_pos rfl

theorem myHashPre_prev (hnull : hash.heap NULL = none) {iter : MyHashIter}
    (hp : hash.heap p = some iter) (hprev : iter.prev ≠ NULL) (turns : Nat) :
    myHashPre turns hash p = some iter.prev := by
  have hne : p ≠ NULL := ne_null_of_some hnull hp
  rw [myHashPre, if_neg hne, hp]
  exact if_pos hprev

theorem myHashPre_first (h : Joined hash) (hindexed : Indexed hash) (hb : b < hash.size)
    (hne : hash.buckets b ≠ NULL) (turns : Nat) :
    myHashPre turns hash (hash.buckets b) = preBuckets turns hash (b - 1) := by
  rcases h.first_entry hb hne with ⟨iter, hiter, hprev, hhome⟩
  have hlt := hindexed _ (show hash.heap (hash.buckets b) ≠ none by simp [hiter])
  rw [home_of_some hash.size hiter] at hhome hlt
  rw [myHashPre, if_neg hne, hiter]
  simp only [Option.bind_eq_bind, Option.bind_some, hprev, ne_eq, not_true_eq_false, if_false,
    intIndex_of_lt hlt, hhome]

theorem myHashNext_next (hnull : hash.heap NULL = none) {iter : MyHashIter}
    (hp : hash.heap p = some iter) (hnext : iter.next ≠ NULL) :
    myHashNext hash p = some iter.next := by
  have hne : p ≠ NULL := ne_null_of_some hnull hp
  rw [myHashNext, if_neg hne, hp]
  exact if_pos hnext

theorem myHashNext_last (hnull : hash.heap NULL = none) (hindexed : Indexed hash)
    {iter : MyHashIter} (hp : hash.heap p = some iter) (hnext : iter.next = NULL) :
    myHashNext hash p = some (firstFrom hash (hash.size - (home hash.heap hash.size p + 1))
      (home hash.heap hash.size p + 1)) := by
  have hne : p ≠ NULL := ne_null_of_some hnull hp
  have hlt := hindexed p (by simp [hp])
  rw [home_of_some hash.size hp] at hlt ⊢
  rw [myHashNext, if_neg hne, hp]
  simp only [Option.bind_eq_bind, Option.bind_some, hnext, ne_eq, not_true_eq_false, if_false,
    intIndex_of_lt hlt]

/-!
## Which buckets the search passes
-/

theorem Joined.pre_below (h : Joined hash) (hindexed : Indexed hash) (hb : b < hash.size)
    (hne : hash.buckets b ≠ NULL) {c : Nat} (hcb : c < b)
    (hempty : forall k, c < k -> k < b -> hash.buckets k = NULL) (turns : Nat) :
    myHashPre (turns + 1) hash (hash.buckets b) = preBuckets (turns + 1) hash c := by
  rw [myHashPre_first h hindexed hb hne]
  exact preBuckets_skip (fun k hck hkb => hempty k hck (by omega)) (by omega) turns

theorem exists_last_below (hash : MyHash) (b : Nat) :
    (forall k, k < b -> hash.buckets k = NULL) ∨
      exists c, c < b ∧ hash.buckets c ≠ NULL ∧
        forall k, c < k -> k < b -> hash.buckets k = NULL := by
  induction b with
  | zero => exact Or.inl fun k hk => absurd hk (Nat.not_lt_zero k)
  | succ b ih =>
      by_cases hlast : hash.buckets b = NULL
      · cases ih with
        | inl hnone =>
            refine Or.inl fun k hk => ?_
            cases Nat.eq_or_lt_of_le (Nat.le_of_lt_succ hk) with
            | inl heq => exact heq ▸ hlast
            | inr hlt => exact hnone k hlt
        | inr hsome =>
            rcases hsome with ⟨c, hcb, hne, hempty⟩
            refine Or.inr ⟨c, Nat.lt_succ_of_lt hcb, hne, fun k hck hk => ?_⟩
            cases Nat.eq_or_lt_of_le (Nat.le_of_lt_succ hk) with
            | inl heq => exact heq ▸ hlast
            | inr hlt => exact hempty k hck hlt
      · exact Or.inr ⟨b, Nat.lt_succ_self b, hlast, fun k hbk hk => absurd hbk (by omega)⟩

/-- If the step back from the next bucket leads to the end of this one, this one
is not bucket 0 and has one entry. -/
theorem Undoes.sparse (hundoes : Undoes hash) (h : Joined hash) (hindexed : Indexed hash) :
    Sparse hash := by
  intro b b' hbb' hb' hne hne'
  have hb : b < hash.size := Nat.lt_trans hbb' hb'
  rcases h.last_entry hb hne with ⟨e, iter, hiter, hnext, hhome⟩
  have hstep := myHashNext_last h.null_none hindexed hiter hnext
  rw [hhome] at hstep
  rcases firstFrom_cases hash (hash.size - (b + 1)) (b + 1) with
    ⟨_, hempty⟩ | ⟨j, hbj, hj, hnej, hfirst, hskipped⟩
  · exact absurd (hempty b' hbb' (by omega)) hne'
  · rw [hfirst] at hstep
    rcases hundoes.pre_next e _ (by simp [hiter]) hstep hnej with ⟨turns, hpre⟩
    have henull : e ≠ NULL := ne_null_of_some h.null_none hiter
    cases turns with
    | zero =>
        rw [myHashPre_first h hindexed (by omega) hnej] at hpre
        cases hj' : j - 1 with
        | zero =>
            rw [hj'] at hpre
            exact absurd (Option.some.inj hpre).symm henull
        | succ i =>
            rw [hj'] at hpre
            cases hpre
    | succ turns =>
        rw [h.pre_below hindexed (by omega) hnej hbj hskipped] at hpre
        cases b with
        | zero => exact absurd (Option.some.inj hpre).symm henull
        | succ c =>
            refine ⟨Nat.succ_ne_zero c, ?_⟩
            rcases h.first_entry hb hne with ⟨first, hfirst', _⟩
            refine ⟨first, hfirst', ?_⟩
            by_contra hlong
            rw [preBuckets, preChain_stuck hne hfirst' hlong] at hpre
            cases hpre

theorem Sparse.pre_first (hsparse : Sparse hash) (h : Joined hash) (hindexed : Indexed hash)
    (hb : b < hash.size) (hne : hash.buckets b ≠ NULL) :
    (myHashPre 1 hash (hash.buckets b) = some NULL ∧
        forall k, k < b -> hash.buckets k = NULL) ∨
      exists c, c < b ∧ hash.buckets c ≠ NULL ∧ OneEntry hash c ∧
        myHashPre 1 hash (hash.buckets b) = some (hash.buckets c) ∧
        forall k, c < k -> k < b -> hash.buckets k = NULL := by
  rcases exists_last_below hash b with hnone | ⟨c, hcb, hnec, hempty⟩
  · refine Or.inl ⟨?_, hnone⟩
    rw [myHashPre_first h hindexed hb hne]
    cases b with
    | zero => rfl
    | succ b =>
        rw [Nat.add_sub_cancel, ← Nat.zero_add 1,
          preBuckets_skip (fun k _ hk => hnone k (Nat.lt_succ_of_le hk)) (Nat.zero_le b) 0]
        rfl
  · rcases hsparse c b hcb hb hnec hne with ⟨hc, hone⟩
    refine Or.inr ⟨c, hcb, hnec, hone, ?_, hempty⟩
    rw [← Nat.zero_add 1, h.pre_below hindexed hb hne hcb hempty]
    exact preBuckets_one hc hnec hone 0

theorem Sparse.undoes (hsparse : Sparse hash) (h : Joined hash) (hindexed : Indexed hash) :
    Undoes hash where
  pre_ends := by
    intro e he
    rcases Option.ne_none_iff_exists'.mp he with ⟨iter, hiter⟩
    by_cases hprev : iter.prev = NULL
    · have hfirst := h.first_of_prev hiter hprev
      have hne : e ≠ NULL := by
        rintro rfl
        exact he h.null_none
      rw [hfirst] at hne ⊢
      rcases hsparse.pre_first h hindexed (home_lt h.size_pos hash.heap e) hne with
        ⟨hpre, _⟩ | ⟨c, _, _, _, hpre, _⟩
      · exact ⟨1, NULL, hpre⟩
      · exact ⟨1, _, hpre⟩
    · exact ⟨0, iter.prev, myHashPre_prev h.null_none hiter hprev 0⟩
  pre_next := by
    intro e f he hstep hf
    rcases Option.ne_none_iff_exists'.mp he with ⟨iter, hiter⟩
    by_cases hnext : iter.next = NULL
    · rw [myHashNext_last h.null_none hindexed hiter hnext] at hstep
      cases hstep
      have hhome := home_lt h.size_pos hash.heap e
      have hfilled : hash.buckets (home hash.heap hash.size e) ≠ NULL := by
        intro hempty
        rcases h.links_at he with ⟨first, rest, _, _, _, _, hdoubly⟩
        rw [hempty] at hdoubly
        have := hdoubly.unique (heapLinks_eq_none_iff.mpr h.null_none)
          (show Doubly (heapLinks hash.heap) NULL NULL [] NULL from rfl)
        simp at this
      rcases firstFrom_cases hash (hash.size - (home hash.heap hash.size e + 1))
          (home hash.heap hash.size e + 1) with
        ⟨hnull, _⟩ | ⟨j, hej, hj, hnej, hfirst, hskipped⟩
      · exact absurd hnull hf
      · rw [hfirst]
        refine ⟨1, ?_⟩
        rcases hsparse.pre_first h hindexed (by omega) hnej with
          ⟨_, hnone⟩ | ⟨c, hcj, hnec, hone, hpre, hempty⟩
        · exact absurd (hnone _ hej) hfilled
        · -- both are the last bucket with entries before bucket `j`
          have hc : c = home hash.heap hash.size e := by
            rcases Nat.lt_trichotomy c (home hash.heap hash.size e) with hlt | heq | hgt
            · exact absurd (hempty _ hlt hej) hfilled
            · exact heq
            · exact absurd (hskipped c hgt hcj) hnec
          rw [hpre, hc]
          rw [hc] at hone
          rw [← h.eq_of_one he hone]
    · rw [myHashNext_next h.null_none hiter hnext] at hstep
      cases hstep
      rcases h.prev_of_next hiter hnext with ⟨other, hother, hprev⟩
      have hne : other.prev ≠ NULL := by
        rw [hprev]
        rintro rfl
        exact he h.null_none
      refine ⟨0, ?_⟩
      rw [myHashPre_prev h.null_none hother hne, hprev]
  pre_begin := by
    refine ⟨1, ?_⟩
    rw [myHashBegin]
    rcases firstFrom_cases hash hash.size 0 with
      ⟨hnull, _⟩ | ⟨j, _, hj, hnej, hfirst, hskipped⟩
    · rw [hnull, myHashPre_null]
    · rw [hfirst]
      rcases hsparse.pre_first h hindexed (by omega) hnej with ⟨hpre, _⟩ | ⟨c, hcj, hnec, _⟩
      · exact hpre
      · exact absurd (hskipped c (Nat.zero_le c) hcj) hnec

/-!
## Bucket numbers
-/

variable {HASH_GROW_STEP size : Nat} {ops : MyHashOps} {outcome : Outcome} {value ret : Ptr}
  {made : List Ptr}

theorem Leaves.indexed {heap : Heap} {events : List Event} (h : Leaves hash hash' heap events)
    (hindex : forall q, heap q ≠ none -> home heap hash.size q < 2 ^ 31) : Indexed hash' := by
  intro q hq
  cases h.size_cases with
  | inl hsize =>
      rw [ne_eq, h.data.none_iff] at hq
      rw [hsize, h.data.home_eq]
      exact hindex q hq
  | inr hsize => exact Nat.lt_trans (home_lt h.joined.size_pos hash'.heap q) hsize

theorem Indexed.update (h : Indexed hash) {iter : MyHashIter}
    (hiter : HASH_INDEX iter.keyHash hash.size < 2 ^ 31) (q : Ptr)
    (hq : Function.update hash.heap p (some iter) q ≠ none) :
    home (Function.update hash.heap p (some iter)) hash.size q < 2 ^ 31 := by
  cases eq_or_ne q p with
  | inl heq =>
      rw [heq, home_of_some hash.size (Function.update_self ..)]
      exact hiter
  | inr hne =>
      rw [Function.update_of_ne hne] at hq
      rw [home, Function.update_of_ne hne]
      exact h q hq

theorem Indexed.iter_lt (h : Indexed hash) {iter : MyHashIter} (hp : hash.heap p = some iter) :
    HASH_INDEX iter.keyHash hash.size < 2 ^ 31 := by
  rw [← home_of_some hash.size hp]
  exact h p (by simp [hp])

theorem LookaddCases.indexed (hcases : LookaddCases hash key outcome ret hash')
    (h : Indexed hash) (hindex : HASH_INDEX (hash.ops.hash key) hash.size < 2 ^ 31) :
    Indexed hash' := by
  cases hcases with
  | refused _ => exact h
  | found _ _ _ => exact h
  | added _ _ _ _ hleaves => exact hleaves.indexed (h.update hindex)

theorem AddCases.indexed (hcases : AddCases hash key value outcome ret hash')
    (h : Indexed hash) (hindex : HASH_INDEX (hash.ops.hash key) hash.size < 2 ^ 31) :
    Indexed hash' := by
  cases hcases with
  | refused hlooked => exact hlooked.indexed h hindex
  | set hlooked _ hp hleaves =>
      have hlookedIndexed := hlooked.indexed h hindex
      have hlt := hlookedIndexed.iter_lt hp
      refine hleaves.indexed (hlookedIndexed.update ?_)
      exact hlt

theorem DeleteCases.indexed (hcases : DeleteCases hash p hash') (h : Indexed hash) :
    Indexed hash' := by
  cases hcases with
  | none _ => exact h
  | deferred _ hp _ hleaves =>
      have hlt := h.iter_lt hp
      refine hleaves.indexed (h.update ?_)
      exact hlt
  | removed _ _ _ hleaves =>
      refine hleaves.indexed fun q hq => ?_
      rcases Option.ne_none_iff_exists'.mp hq with ⟨iter, hiter⟩
      rw [home_of_some hash.size hiter]
      exact h.iter_lt (update_none_cases hiter).right

theorem Indexed.apply (h : Indexed hash) (hchained : Chained hash) {call : Call}
    (hdefined : call.Defined HASH_GROW_STEP hash)
    (hcall : call.apply HASH_GROW_STEP hash = some (ret, hash')) : Indexed hash' := by
  cases call with
  | lookadd key outcome =>
      rcases hdefined with ⟨hindex, hfresh, hpos⟩
      exact (myHashLookadd_cases hchained hfresh hpos hcall).indexed h hindex
  | add key value outcome =>
      rcases hdefined with ⟨hindex, hfresh, hpos⟩
      exact (myHashAdd_cases hchained hfresh hpos hcall).indexed h hindex
  | delete key =>
      rcases Option.map_eq_some_iff.mp hcall with ⟨after, hdelete, hpair⟩
      cases hpair
      simp only [myHashDelete, Option.bind_eq_bind, Option.bind_eq_some_iff] at hdelete
      rcases hdelete with ⟨iter, _, hdelete⟩
      exact (myHashIterDelete_cases hchained.joined hdelete).indexed h

theorem Lifetime.indexed (hrun : Lifetime HASH_GROW_STEP (myHashInit size ops) made hash) :
    Indexed hash := by
  induction hrun with
  | nil => exact fun q hq => absurd rfl hq
  | call hbefore hdefined hcall ih => exact ih.apply hbefore.chained hdefined hcall
  | clear _ hclear ih =>
      rw [myHashClear_table] at hclear
      cases hclear
      exact ih

/-- `my_hash_pre` undoes `my_hash_next` in a table exactly when every bucket with
entries before another one holds one entry and is not bucket 0. -/
theorem hash_pre_undoes_next_iff
    (hrun : Lifetime HASH_GROW_STEP (myHashInit size ops) made hash) :
    Undoes hash <-> Sparse hash := by
  have hjoined := hrun.chained.joined
  exact ⟨fun hundoes => hundoes.sparse hjoined hrun.indexed,
    fun hsparse => hsparse.undoes hjoined hrun.indexed⟩

/-- `my_hash_add` of a key without a value, where `my_calloc` finds an entry. -/
def plainAdd (key entry : Ptr) : Call :=
  .add key NULL ⟨entry, true, NULL, NULL⟩

theorem emptyTable_lifetime (size : Nat) :
    Lifetime 2 (myHashInit size addressOps) [] (myHashInit size addressOps) :=
  Lifetime.nil

theorem Lifetime.plainAdd (key entry : Ptr)
    (hrun : Lifetime 2 (myHashInit size addressOps) made hash)
    (hindex : HASH_INDEX (hash.ops.hash key) hash.size < 2 ^ 31)
    (hfree : hash.heap entry = none ∧ entry < 2 ^ 64) (hgrown : 0 < uint (2 * hash.size))
    (hcall : (plainAdd key entry).apply 2 hash = some (ret, hash')) :
    Lifetime 2 (myHashInit size addressOps) (made ++ (ChainedHash.plainAdd key entry).makes hash)
      hash' :=
  hrun.call ⟨hindex, fun _ => hfree, fun _ _ => hgrown⟩ hcall

theorem Lifetime.plainDelete (key : Ptr)
    (hrun : Lifetime 2 (myHashInit size addressOps) made hash)
    (hindex : HASH_INDEX (hash.ops.hash key) hash.size < 2 ^ 31)
    (hcall : (Call.delete key).apply 2 hash = some (ret, hash')) :
    Lifetime 2 (myHashInit size addressOps) made hash' := by
  have hdefined : (Call.delete key).Defined 2 hash := hindex
  have hdeleted := hrun.call hdefined hcall
  rw [Call.makes, List.append_nil] at hdeleted
  exact hdeleted

theorem hash_pre_undoes_next_iff_two :
    exists hash, Lifetime 2 (myHashInit 0 addressOps) [100, 101] hash ∧ Undoes hash := by
  have htwo : exists hash, Lifetime 2 (myHashInit 0 addressOps) [100, 101] hash ∧
      hash.size = 10 ∧ hash.buckets 1 = 100 ∧
      hash.heap 100 = some { MyHashIter.zero with key := 1, keyHash := 1 } ∧
      forall b', b' < 10 -> forall b, b < b' -> hash.buckets b ≠ NULL ->
        hash.buckets b' ≠ NULL -> b = 1 :=
    ⟨_, ((emptyTable_lifetime 0).plainAdd 1 100 (by decide) ⟨rfl, by decide⟩ (by decide)
      rfl).plainAdd 2 101 (by decide) ⟨rfl, by decide⟩ (by decide) rfl, rfl, rfl, rfl, by decide⟩
  rcases htwo with ⟨hash, hrun, hsize, hbucket, hentry, hfilled⟩
  refine ⟨hash, hrun, (hash_pre_undoes_next_iff hrun).mpr ?_⟩
  intro b b' hbb' hb' hne hne'
  have hb := hfilled b' (hsize ▸ hb') b hbb' hne hne'
  subst hb
  refine ⟨Nat.one_ne_zero, { MyHashIter.zero with key := 1, keyHash := 1 }, ?_, rfl⟩
  rw [hbucket, hentry]

/-- Bucket 0 is never searched, so no step leads back to its entry; and from the
bucket after one with two entries the search never ends. -/
theorem hash_pre_misses :
    (exists hash, Lifetime 2 (myHashInit 0 addressOps) [100, 101] hash ∧
      myHashNext hash 100 = some 101 ∧ forall turns, myHashPre turns hash 101 = some NULL) ∧
    exists hash, Lifetime 2 (myHashInit 0 addressOps) [100, 101, 102] hash ∧
      hash.heap 102 ≠ none ∧ forall turns, myHashPre turns hash 102 = none := by
  constructor
  · exact ⟨_, ((emptyTable_lifetime 0).plainAdd 10 100 (by decide) ⟨rfl, by decide⟩ (by decide)
      rfl).plainAdd 1 101 (by decide) ⟨rfl, by decide⟩ (by decide) rfl, rfl, fun _ => rfl⟩
  · have hthree : exists hash, Lifetime 2 (myHashInit 0 addressOps) [100, 101, 102] hash ∧
        hash.heap 102 ≠ none ∧
        (forall turns, myHashPre turns hash 102 = preBuckets turns hash 1) ∧
        hash.buckets 1 = 101 ∧
        hash.heap 101 = some { MyHashIter.zero with key := 11, keyHash := 11, next := 100 } :=
      ⟨_, (((emptyTable_lifetime 0).plainAdd 1 100 (by decide) ⟨rfl, by decide⟩ (by decide)
        rfl).plainAdd 11 101 (by decide) ⟨rfl, by decide⟩ (by decide) rfl).plainAdd 2 102
        (by decide) ⟨rfl, by decide⟩ (by decide) rfl, by decide, fun _ => rfl, rfl, rfl⟩
    rcases hthree with ⟨hash, hrun, hthird, hpre, hbucket, hsecond⟩
    refine ⟨hash, hrun, hthird, fun turns => ?_⟩
    rw [hpre, preBuckets, hbucket, preChain_stuck (by decide) hsecond (by decide)]
    rfl

end ChainedHash
end MyLibs
