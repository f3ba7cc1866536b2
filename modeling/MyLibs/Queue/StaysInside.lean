import MyLibs.Foundation.Confined
import MyLibs.Queue.Lifetimes

/-!
# The queue stays inside of its block

The block that `root` points to has no end in the model. With any other pointers behind
the slots that were requested for it, each call does the same, and unless it moves the
block, those pointers stay as they are.
-/

namespace MyLibs
namespace Queue

open Foundation

variable {ctx : Type _} {queue queue' : MyQueue ctx} {n : Nat} {junk : Nat -> Ptr}

def MyQueue.slots (queue : MyQueue ctx) : Nat :=
  queue.rootBytes / sizeofPtr

def MyQueue.padded (queue : MyQueue ctx) (n : Nat) (junk : Nat -> Ptr) : MyQueue ctx :=
  { queue with root := Foundation.padded n queue.root junk }

def Sunk.padded (n : Nat) (junk : Nat -> Ptr) : Sunk -> Sunk
  | .returned root => .returned (Foundation.padded n root junk)
  | .leaf idx root => .leaf idx (Foundation.padded n root junk)

/-!
## The loops
-/

theorem downheapSink_padded (hn : queue.elements < n) (element : Ptr) (fuel : Nat)
    (first : Bool) {idx : Nat} (root : Nat -> Ptr) (hidx : idx < n) :
    downheapSink (queue.padded n junk) element fuel first idx (Foundation.padded n root junk) =
      (downheapSink queue element fuel first idx root).map (Sunk.padded n junk) := by
  induction fuel generalizing first idx root with
  | zero => rfl
  | succ fuel ih =>
      have hcompare : (queue.padded n junk).compareKeys = queue.compareKeys := rfl
      have helements : (queue.padded n junk).elements = queue.elements := rfl
      rw [downheapSink, downheapSink]
      simp only [hcompare, helements]
      by_cases hin : idx <= queue.elements / 2
      · have hchild : (if idx + idx < queue.elements ∧
            queue.compareKeys (Foundation.padded n root junk (idx + idx))
              (Foundation.padded n root junk (idx + idx + 1)) > 0 then
            idx + idx + 1 else idx + idx) =
            (if idx + idx < queue.elements ∧
              queue.compareKeys (root (idx + idx)) (root (idx + idx + 1)) > 0 then
            idx + idx + 1 else idx + idx) := by
          by_cases hsecond : idx + idx < queue.elements
          · rw [padded_of_lt (by omega : idx + idx < n),
              padded_of_lt (by omega : idx + idx + 1 < n)]
          · rw [if_neg (fun h => hsecond h.left), if_neg (fun h => hsecond h.left)]
        simp only [if_pos hin, hchild]
        generalize hnext : (if idx + idx < queue.elements ∧
            queue.compareKeys (root (idx + idx)) (root (idx + idx + 1)) > 0 then
          idx + idx + 1 else idx + idx) = nextIndex
        have hinside : nextIndex < n := by
          rw [← hnext]
          split <;> omega
        simp only [padded_of_lt hinside, update_padded hidx]
        split
        · rfl
        · exact ih false _ hinside
      · rw [if_neg hin, if_neg hin]
        rfl

theorem downheapClimb_padded (element : Ptr) (startIdx fuel : Nat) {idx : Nat}
    (root : Nat -> Ptr) (hidx : idx < n) :
    downheapClimb (queue.padded n junk) element startIdx fuel idx (Foundation.padded n root junk) =
      (downheapClimb queue element startIdx fuel idx root).map
        fun placed => (placed.1, Foundation.padded n placed.2 junk) := by
  induction fuel generalizing idx root with
  | zero => rfl
  | succ fuel ih =>
      have hcompare : (queue.padded n junk).compareKeys = queue.compareKeys := rfl
      have hhalf : idx / 2 < n := by omega
      rw [downheapClimb, downheapClimb]
      simp only [hcompare, padded_of_lt hhalf, update_padded hidx]
      split
      · split
        · rfl
        · exact ih _ hhalf
      · rfl

theorem downheapClimb_hole_le {element : Ptr} {startIdx fuel idx hole : Nat}
    {root root' : Nat -> Ptr}
    (hclimb : downheapClimb queue element startIdx fuel idx root = some (hole, root')) :
    hole <= idx := by
  induction fuel generalizing idx root with
  | zero => cases hclimb
  | succ fuel ih =>
      rw [downheapClimb] at hclimb
      split at hclimb
      · split at hclimb
        · cases hclimb
          exact Nat.le_refl _
        · exact Nat.le_trans (ih hclimb) (Nat.div_le_self _ _)
      · cases hclimb
        exact Nat.le_refl _

theorem downheap_padded (queue : MyQueue ctx) (junk : Nat -> Ptr) (hn : queue.elements < n)
    {idx : Nat} (hidx : 1 <= idx) :
    downheap (queue.padded n junk) idx = (downheap queue idx).map fun q => q.padded n junk := by
  by_cases hle : idx <= queue.elements
  · have hinside : idx < n := Nat.lt_of_le_of_lt hle hn
    have hroot : (queue.padded n junk).root = Foundation.padded n queue.root junk := rfl
    have helements : (queue.padded n junk).elements = queue.elements := rfl
    rcases downheapSink_keeps (queue.root idx) (queue.elements + 1) true idx queue.root
      hidx hle (by omega) with ⟨sunk, hsink, hleaf, _⟩
    unfold downheap
    simp only [hroot, helements, padded_of_lt hinside, downheapSink_padded hn _ _ _ _ hinside,
      hsink]
    cases sunk with
    | returned root => rfl
    | leaf leaf root =>
        have hleafLt : leaf < n := Nat.lt_of_le_of_lt hleaf.right hn
        simp only [Option.map_some, Sunk.padded, downheapClimb_padded _ _ _ _ hleafLt]
        cases hclimb : downheapClimb queue (queue.root idx) idx (leaf + 1) leaf root with
        | none => rfl
        | some placed =>
            rcases placed with ⟨hole, root'⟩
            have hhole : hole < n := Nat.lt_of_le_of_lt (downheapClimb_hole_le hclimb) hleafLt
            simp only [Option.map_some, update_padded hhole]
            rfl
  · have hbehind : queue.elements < idx := Nat.lt_of_not_le hle
    have hbehind' : (queue.padded n junk).elements < idx := hbehind
    rw [downheap_behind hbehind, downheap_behind hbehind']
    rfl

theorem queueFixLoop_padded (hn : queue.elements < n) (k : Nat) :
    queueFixLoop k (queue.padded n junk) =
      (queueFixLoop k queue).map fun q => q.padded n junk := by
  induction k generalizing queue with
  | zero => rfl
  | succ k ih =>
      rcases downheap_keeps queue (by omega : 1 <= k + 1) with ⟨root, hdown, _⟩
      rw [queueFixLoop, queueFixLoop, downheap_padded queue junk hn (by omega), hdown]
      exact ih hn

theorem queueInsertLoop_padded (element : Ptr) (fuel : Nat) {idx : Nat} (root : Nat -> Ptr)
    (hidx : idx < n) :
    queueInsertLoop (queue.padded n junk) element fuel idx (Foundation.padded n root junk) =
      (queueInsertLoop queue element fuel idx root).map
        fun placed => (placed.1, Foundation.padded n placed.2 junk) := by
  induction fuel generalizing idx root with
  | zero => rfl
  | succ fuel ih =>
      have hcompare : (queue.padded n junk).compareKeys = queue.compareKeys := rfl
      have hhalf : idx / 2 < n := by omega
      rw [queueInsertLoop, queueInsertLoop]
      simp only [hcompare, padded_of_lt hhalf, update_padded hidx]
      split
      · exact ih _ hhalf
      · rfl

theorem queueInsertLoop_hole_le {element : Ptr} {fuel idx hole : Nat}
    {root root' : Nat -> Ptr}
    (hloop : queueInsertLoop queue element fuel idx root = some (hole, root')) :
    hole <= idx := by
  induction fuel generalizing idx root with
  | zero => cases hloop
  | succ fuel ih =>
      rw [queueInsertLoop] at hloop
      split at hloop
      · exact Nat.le_trans (ih hloop) (Nat.div_le_self _ _)
      · cases hloop
        exact Nat.le_refl _

/-!
## The functions
-/

theorem queueInsert_padded (element : Ptr) (hn : queue.maxElements < n) :
    queueInsert (queue.padded n junk) element =
      (queueInsert queue element).map fun q => q.padded n junk := by
  have hroot : (queue.padded n junk).root = Foundation.padded n queue.root junk := rfl
  have helements : (queue.padded n junk).elements = queue.elements := rfl
  have hmax : (queue.padded n junk).maxElements = queue.maxElements := rfl
  unfold queueInsert
  simp only [hroot, helements, hmax]
  split
  · rename_i hroom
    have hlast : queue.elements + 1 < n := by omega
    rw [update_padded (by omega : 0 < n), queueInsertLoop_padded _ _ _ hlast]
    cases hloop : queueInsertLoop queue element (queue.elements + 1 + 1) (queue.elements + 1)
      (Function.update queue.root 0 element) with
    | none => rfl
    | some placed =>
        rcases placed with ⟨hole, root'⟩
        have hhole : hole < n := Nat.lt_of_le_of_lt (queueInsertLoop_hole_le hloop) hlast
        simp only [Option.map_some, update_padded hhole]
        rfl
  · rfl

theorem queueRemove_padded {idx : Nat} (hn : queue.elements < n) (hidx : idx < queue.elements)
    (hwidth : queue.elements < 2 ^ 32) :
    queueRemove (queue.padded n junk) idx =
      (queueRemove queue idx).map fun removed => (removed.1, removed.2.padded n junk) := by
  have hroot : (queue.padded n junk).root = Foundation.padded n queue.root junk := rfl
  have helements : (queue.padded n junk).elements = queue.elements := rfl
  have hmax : (queue.padded n junk).maxElements = queue.maxElements := rfl
  have hslot : idx + 1 < n := by omega
  unfold queueRemove
  simp only [hroot, helements, hmax, padded_of_lt hslot, padded_of_lt hn, update_padded hslot,
    uint_pred (by omega : 0 < queue.elements) hwidth]
  split
  · have hdown := downheap_padded
      { queue with
        root := Function.update queue.root (idx + 1) (queue.root queue.elements)
        elements := queue.elements - 1 }
      junk (show queue.elements - 1 < n by omega) (by omega : 1 <= idx + 1)
    simp only [MyQueue.padded] at hdown ⊢
    rw [hdown]
    cases downheap
      { queue with
        root := Function.update queue.root (idx + 1) (queue.root queue.elements)
        elements := queue.elements - 1 } (idx + 1) with
    | none => rfl
    | some q => rfl
  · rfl

theorem reallocRoot_padded (hn : queue.rootBytes <= n * sizeofPtr) (newBytes : Nat)
    (fresh : Nat -> Ptr) :
    reallocRoot (Foundation.padded n queue.root junk) queue.rootBytes newBytes fresh =
      reallocRoot queue.root queue.rootBytes newBytes fresh := by
  funext i
  unfold reallocRoot
  split
  · rename_i hboth
    have hold : (i + 1) * sizeofPtr <= n * sizeofPtr :=
      Nat.le_trans (Nat.le_trans hboth (Nat.min_le_left ..)) hn
    have hin : i < n := Nat.le_of_mul_le_mul_right hold (by decide : 0 < sizeofPtr)
    exact padded_of_lt hin
  · rfl

/-- A resize keeps the block, and then the pointers behind it, or leaves nothing of
them. -/
theorem queueResize_padded (hn : queue.rootBytes <= n * sizeofPtr) {maxElements : Nat}
    (hslot : LeavesSentinelSlot maxElements) (block : Option (Nat -> Ptr)) :
    queueResize (queue.padded n junk) maxElements block =
      if queue.maxElements = maxElements ∨ block = none then
        ((queueResize queue maxElements block).1, queue.padded n junk)
      else
        queueResize queue maxElements block := by
  have hmax : (queue.padded n junk).maxElements = queue.maxElements := rfl
  by_cases hsame : queue.maxElements = maxElements
  · unfold queueResize
    rw [hmax, if_pos hsame, if_pos (Or.inl hsame), if_pos hsame]
  · cases block with
    | none =>
        have hrequest := rootRequest_ne_zero hslot
        rw [if_pos (Or.inr rfl), queueResize_failed hsame hrequest,
          queueResize_failed (hmax.trans_ne hsame) hrequest]
    | some fresh =>
        have hmoved : ¬ (queue.maxElements = maxElements ∨ some fresh = none) := by simp [hsame]
        rw [if_neg hmoved]
        unfold queueResize
        simp only [if_neg hsame, MyQueue.padded, reallocRoot_padded hn]

/-!
## All calls
-/

theorem MyQueue.Sized.slots_eq (h : queue.Sized) : queue.slots = queue.maxElements + 1 := by
  unfold MyQueue.slots
  rw [h.bounded.bytes, rootRequest, uint_of_lt h.slot]
  exact Nat.mul_div_cancel _ (by decide : 0 < sizeofPtr)

/-- The call does the same over any pointers behind the block, and leaves them alone if it
leaves the block where it is. -/
def Call.StaysInside (call : Call ctx) (queue : MyQueue ctx) (reply : Reply)
    (queue' : MyQueue ctx) : Prop :=
  forall junk, exists junk',
    call.apply (queue.padded queue.slots junk) = some (reply, queue'.padded queue'.slots junk') ∧
      (queue'.maxElements = queue.maxElements -> junk' = junk)

theorem MyQueue.Sized.padded (h : queue.Sized) (junk : Nat -> Ptr) : (queue.padded n junk).Sized :=
  ⟨⟨h.bounded.room, h.bounded.width, h.bounded.extent, h.bounded.bytes⟩, h.slot⟩

theorem MyQueue.padded_root (queue : MyQueue ctx) (n : Nat) :
    queue.padded n queue.root = queue := by
  rw [MyQueue.padded, padded_self]

theorem Call.staysInside_of_padded {call : Call ctx} {reply : Reply} (h : queue.Sized)
    (h' : queue'.Sized) (hmax : queue'.maxElements = queue.maxElements)
    (hpadded : forall junk, call.apply (queue.padded (queue.maxElements + 1) junk) =
      some (reply, queue'.padded (queue.maxElements + 1) junk)) :
    call.StaysInside queue reply queue' := by
  intro junk
  rw [h.slots_eq, h'.slots_eq, hmax]
  exact ⟨junk, hpadded junk, fun _ => rfl⟩

theorem Call.staysInside_of_moved {call : Call ctx} {reply : Reply}
    (hmax : queue'.maxElements ≠ queue.maxElements)
    (hpadded : forall junk, call.apply (queue.padded queue.slots junk) = some (reply, queue')) :
    call.StaysInside queue reply queue' := by
  intro junk
  refine ⟨queue'.root, ?_, fun hsame => absurd hsame hmax⟩
  rw [MyQueue.padded_root]
  exact hpadded junk

theorem MyQueue.Sized.bytes_le (h : queue.Sized) : queue.rootBytes <= queue.slots * sizeofPtr := by
  rw [h.slots_eq, h.bounded.bytes, rootRequest, uint_of_lt h.slot]

theorem MyQueue.Sized.resize_inside (h : queue.Sized) {maxElements : Nat}
    (hslot : LeavesSentinelSlot maxElements) {block : Option (Nat -> Ptr)}
    (h' : (queueResize queue maxElements block).2.Sized) :
    Call.StaysInside (.resize maxElements block) queue
      (.code (queueResize queue maxElements block).1) (queueResize queue maxElements block).2 := by
  by_cases hkept : queue.maxElements = maxElements ∨ block = none
  · have hsame : (queueResize queue maxElements block).2 = queue := by
      by_cases hmax : queue.maxElements = maxElements
      · unfold queueResize
        rw [if_pos hmax]
      · rw [hkept.resolve_left hmax, queueResize_failed hmax (rootRequest_ne_zero hslot)]
    refine Call.staysInside_of_padded h h' (by rw [hsame]) ?_
    intro junk
    rw [hsame]
    simp only [Call.apply]
    rw [queueResize_padded (h.slots_eq ▸ h.bytes_le) hslot, if_pos hkept]
  · refine Call.staysInside_of_moved ?_ ?_
    · rcases not_or.mp hkept with ⟨hmax, hblock⟩
      rcases Option.ne_none_iff_exists'.mp hblock with ⟨fresh, hfresh⟩
      rw [hfresh, queueResize, if_neg hmax]
      exact Ne.symm hmax
    · intro junk
      simp only [Call.apply]
      rw [queueResize_padded h.bytes_le hslot, if_neg hkept]

theorem MyQueue.Sized.extended_inside (h : queue.Sized) {element : Ptr} {fresh : Nat -> Ptr}
    (hfull : queue.elements = queue.maxElements) (hextent : queue.autoExtent ≠ 0)
    (hfits : queue.maxElements + queue.autoExtent + 1 < 2 ^ 32)
    (hinsert : queueInsert (queue.extended fresh) element = some queue') :
    Call.StaysInside (.insertSafe element (some fresh)) queue (.code 0) queue' := by
  refine Call.staysInside_of_moved ?_ ?_
  · rcases queueInsert_changes hinsert with ⟨_, root, rfl⟩
    have hmax : (queue.extended fresh).maxElements =
        queue.maxElements + queue.autoExtent := uint_of_lt (by omega)
    show (queue.extended fresh).maxElements ≠ queue.maxElements
    omega
  · intro junk
    have hextended : (queue.padded queue.slots junk).extended fresh = queue.extended fresh := by
      simp only [MyQueue.extended, MyQueue.padded, reallocRoot_padded h.bytes_le]
    rw [Call.apply, (h.padded junk).bounded.insertSafe_full hfull hextent,
      Option.elim_some, hextended, hinsert]
    rfl

theorem MyQueue.Sized.insertSafe_inside (h : queue.Sized) {element : Ptr}
    {block : Option (Nat -> Ptr)} {ret : Nat} (hfits : SumsFit queue block)
    (hcall : queueInsertSafe queue element block = some (ret, queue')) (h' : queue'.Sized) :
    Call.StaysInside (.insertSafe element block) queue (.code ret) queue' := by
  by_cases hfull : queue.elements = queue.maxElements
  · by_cases hextent : queue.autoExtent = 0
    · unfold queueInsertSafe at hcall
      rw [if_pos hfull, if_pos hextent] at hcall
      cases hcall
      refine Call.staysInside_of_padded h h' rfl ?_
      intro junk
      have hfull' : (queue.padded (queue.maxElements + 1) junk).elements =
          (queue.padded (queue.maxElements + 1) junk).maxElements := hfull
      have hextent' : (queue.padded (queue.maxElements + 1) junk).autoExtent = 0 := hextent
      rw [Call.apply, queueInsertSafe, if_pos hfull', if_pos hextent']
      rfl
    · rw [h.bounded.insertSafe_full hfull hextent] at hcall
      cases block with
      | none =>
          rw [Option.elim_none, hfits.refused_eq hfull hextent] at hcall
          cases hcall
          refine Call.staysInside_of_padded h h' rfl ?_
          intro junk
          have hfits' : SumsFit (queue.padded (queue.maxElements + 1) junk) none := hfits
          rw [Call.apply, (h.padded junk).bounded.insertSafe_full hfull hextent,
            Option.elim_none, hfits'.refused_eq hfull hextent]
          rfl
      | some fresh =>
          have hsum := hfits.sum_lt hfull hextent
          rw [Option.elim_some] at hcall
          rcases Option.map_eq_some_iff.mp hcall with ⟨last, hinsert, hresult⟩
          cases hresult
          exact h.extended_inside hfull hextent hsum hinsert
  · unfold queueInsertSafe at hcall
    rw [if_neg hfull] at hcall
    rcases Option.map_eq_some_iff.mp hcall with ⟨last, hinsert, hresult⟩
    cases hresult
    have hmax : queue'.maxElements = queue.maxElements := by
      rcases queueInsert_changes hinsert with ⟨_, root, rfl⟩
      rfl
    refine Call.staysInside_of_padded h h' hmax ?_
    intro junk
    have hfull' : (queue.padded (queue.maxElements + 1) junk).elements ≠
        (queue.padded (queue.maxElements + 1) junk).maxElements := hfull
    rw [Call.apply, queueInsertSafe, if_neg hfull',
      queueInsert_padded element (Nat.lt_succ_self _), hinsert]
    rfl

theorem MyQueue.Sized.staysInside (h : queue.Sized) {call : Call ctx} {reply : Reply}
    (hallowed : call.Allowed queue) (happly : call.apply queue = some (reply, queue')) :
    call.StaysInside queue reply queue' := by
  have hroom := h.bounded.room
  have hlast : queue.elements < queue.maxElements + 1 := Nat.lt_succ_of_le hroom
  have h' : queue'.Sized := by
    rcases h.accounts hallowed with ⟨reply', next, hnext, hsized, _⟩
    rw [happly] at hnext
    cases hnext
    exact hsized
  cases call with
  | insert element =>
      rcases Option.map_eq_some_iff.mp happly with ⟨last, hinsert, hresult⟩
      cases hresult
      rcases queueInsert_changes hinsert with ⟨_, root, rfl⟩
      refine Call.staysInside_of_padded h h' rfl fun junk => ?_
      rw [Call.apply, queueInsert_padded element (Nat.lt_succ_self _), hinsert]
      rfl
  | insertSafe element block =>
      rcases Option.map_eq_some_iff.mp happly with ⟨last, hinsert, hresult⟩
      cases hresult
      exact h.insertSafe_inside hallowed.left hinsert h'
  | remove idx =>
      rcases queueRemove_keeps hallowed hroom h.bounded.width with ⟨root, hremove, _⟩
      rw [Call.apply, hremove] at happly
      cases happly
      refine Call.staysInside_of_padded h h' rfl fun junk => ?_
      rw [Call.apply, queueRemove_padded hlast hallowed (Nat.lt_of_le_of_lt hroom h.bounded.width),
        hremove]
      rfl
  | replaceTop element =>
      have hpos : 0 < queue.elements := hallowed
      have hone : 1 < queue.maxElements + 1 := by omega
      rcases queueReplaced_keeps element hpos with ⟨root, hreplace, _⟩
      rw [Call.apply, hreplace] at happly
      cases happly
      refine Call.staysInside_of_padded h h' rfl fun junk => ?_
      have hdown := downheap_padded { queue with root := Function.update queue.root 1 element }
        junk hlast (Nat.le_refl 1)
      simp only [queueReplaced] at hreplace
      rw [hreplace] at hdown
      simp only [Call.apply, queueReplaced, queueTop, MyQueue.padded, update_padded hone,
        padded_of_lt hone] at hdown ⊢
      rw [hdown]
      rfl
  | fix =>
      rcases queueFixLoop_keeps queue (queue.elements / 2) with ⟨root, hfix, _⟩
      rw [Call.apply, queueFix, hfix] at happly
      cases happly
      refine Call.staysInside_of_padded h h' rfl fun junk => ?_
      have hfix' : queueFixLoop (queue.elements / 2) (queue.padded (queue.maxElements + 1) junk) =
          (queueFixLoop (queue.elements / 2) queue).map
            fun q => q.padded (queue.maxElements + 1) junk :=
        queueFixLoop_padded hlast _
      rw [hfix] at hfix'
      rw [Call.apply, queueFix, show (queue.padded (queue.maxElements + 1) junk).elements =
        queue.elements from rfl, hfix']
      rfl
  | resize maxElements block =>
      cases happly
      exact h.resize_inside hallowed h'
  | reinit maxElements offsetToKey maxAtTop compare firstCmpArg block =>
      cases happly
      have hemptied := (h.withOrder compare firstCmpArg offsetToKey
        (if maxAtTop then -1 else 1)).withRoot queue.root (Nat.zero_le _)
      intro junk
      rcases hemptied.resize_inside hallowed h' junk with ⟨junk', hresize, hkept⟩
      refine ⟨junk', ?_, hkept⟩
      simp only [Call.apply, Option.some.injEq, Prod.mk.injEq] at hresize ⊢
      exact ⟨rfl, hresize.right⟩
  | removeAll | setCmpArg | setMaxAtTop | writeKeys =>
      cases happly
      exact Call.staysInside_of_padded h h' rfl fun junk => rfl

/-- No call reads a pointer behind the block or writes one there: over any other pointers
it gives the same reply and the same queue, and while the block stays where it is, what
is behind it stays too. -/
theorem queue_stays_inside {uninit start : MyQueue ctx} {maxElements offsetToKey : Nat}
    {maxAtTop : Bool} {compare : ctx -> Ptr -> Ptr -> Int32} {firstCmpArg : ctx}
    {autoExtent : Nat} {block : Option (Nat -> Ptr)}
    {accepted handedOut dropped : Multiset Ptr} {call : Call ctx} {reply : Reply}
    (hinit : queueInitEx uninit maxElements offsetToKey maxAtTop compare firstCmpArg autoExtent
      block = (0, start))
    (hslot : LeavesSentinelSlot maxElements) (hextent : autoExtent < 2 ^ 32)
    (hlife : Life start accepted handedOut dropped queue) (hallowed : call.Allowed queue)
    (happly : call.apply queue = some (reply, queue')) :
    call.StaysInside queue reply queue' ∧
      (queue'.maxElements = queue.maxElements ->
        forall i, queue.slots <= i -> queue'.root i = queue.root i) := by
  rcases queueInitEx_sized hinit hslot hextent with ⟨hstart, hempty⟩
  have hsized := (hlife.accounts hstart hempty).left
  have hinside := hsized.staysInside hallowed happly
  refine ⟨hinside, fun hmax i hi => ?_⟩
  rcases hinside queue.root with ⟨junk', hsame, hkept⟩
  rw [MyQueue.padded_root, happly, Option.some.injEq, Prod.mk.injEq, hkept hmax] at hsame
  have hslots : queue'.slots <= i := by
    rcases hsized.accounts hallowed with ⟨reply', next, hnext, hsized', _⟩
    rw [happly] at hnext
    cases hnext
    rw [hsized'.slots_eq, hmax, ← hsized.slots_eq]
    exact hi
  exact eq_of_padded_eq (congrArg MyQueue.root hsame.right.symm) hslots

theorem queue_stays_inside_grown : exists queue queue' : MyQueue Unit,
    Life (emptySlots 1 1) {4} 0 0 queue ∧
      (Call.insertSafe 9 (some fun _ => 0)).StaysInside queue (.code 0) queue' := by
  have hlife : exists queue queue' : MyQueue Unit, Life (emptySlots 1 1)
      (Call.accepted .nothing (.insert 4 : Call Unit) + 0) 0 0 queue ∧
      (Call.insertSafe 9 (some fun _ => 0)).Allowed queue ∧
      (Call.insertSafe 9 (some fun _ => 0)).apply queue = some (.code 0, queue') := by
    refine ⟨_, _, Life.start.call (.insert 4) ?_ rfl, ?_, rfl⟩
    · exact ⟨by decide, by decide⟩
    · exact ⟨Or.inr (Or.inr (by decide : 1 + 1 + 1 < 2 ^ 32)), by decide⟩
  rcases hlife with ⟨queue, queue', hlife, hallowed, happly⟩
  have hinit : queueInitEx tenSlots 1 0 false byAddress () 1 (some fun _ => 0) =
      (0, emptySlots 1 1) := rfl
  have hinside := queue_stays_inside hinit (by decide : 1 + 1 < 2 ^ 32)
    (by decide : 1 < 2 ^ 32) hlife hallowed happly
  exact ⟨queue, queue', hlife, hinside.left⟩

end Queue
end MyLibs
