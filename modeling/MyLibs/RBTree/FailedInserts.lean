import MyLibs.RBTree.KeyStorage
import MyLibs.RBTree.Scratch

/-!
# Insertions that fail

What a call of `rbtree_insert` that returns `NULL` leaves, and runs without such
calls.
-/

namespace MyLibs
namespace RBTree

open Foundation

variable {κ : Type} {tree tree' : RbTree κ} {t t' : ColourTree (Node κ)} {key : κ}
  {keySize : Nat} {malloc : Malloc κ} {call : Call κ} {answer : Answer κ}

def RbTree.contents (tree : RbTree κ) (p : Ptr) : Option (Option κ × Nat) :=
  (tree.nodes.heap p).map fun e => (e.key, e.count)

/-- The elements with their keys and counts are as before, and so is what is
counted. -/
structure Intact (tree tree' : RbTree κ) : Prop where
  contents_eq : tree'.contents = tree.contents
  elements_eq : tree'.elements = tree.elements
  allocated_eq : tree'.allocated = tree.allocated

/-- The key is there, or a new element takes no bytes, within the limit. -/
def Harmless (tree : RbTree κ) (key : κ) (keySize : Nat) : Prop :=
  ¬tree.Absent key ∨ ¬tree.Exceeds keySize ∧ allocSize tree keySize = 0

/-!
## The state after a failure
-/

theorem SameState.intact (h : SameState tree tree') : Intact tree tree' := by
  rcases h with ⟨s, rfl, h⟩
  refine ⟨?_, rfl, rfl⟩
  funext p
  show (s.heap p).map _ = _
  rw [h.heap_eq]
  rfl

/-- What a failed call has done: nothing, or counted an element that it did not
get, or emptied the tree. -/
theorem rbtreeInsert_failed (hcompare : TotalPreorder tree.compare) (h : Valid tree t)
    (hmalloc : FreshMalloc malloc)
    (hinsert : rbtreeInsert tree key keySize malloc = .ok (NULL, tree')) :
    (¬tree.Absent key ∧ SameState tree tree') ∨
      (tree.Absent key ∧ ¬tree.Exceeds keySize ∧
        SameState { tree with allocated := tree.charge keySize } tree') ∨
      (tree.Absent key ∧ tree.Exceeds keySize ∧ tree'.elements = 0) := by
  rcases rbtreeInsertWith_step hcompare h hmalloc hinsert with ⟨t', hvalid', _, hstep⟩
  rw [rbtreeInsert] at hinsert
  rcases rbtreeInsertWith_pass malloc key keySize 1 hcompare h with
    ⟨⟨fault, herror⟩, _⟩ | ⟨parents, ctx, rfl, _, _, hat, hpass⟩ |
      ⟨parents, ctx, c, a, v, b, rfl, hequal, hpass⟩
  · rw [hinsert] at herror
    cases herror
  · have habsent := h.absent_iff.mpr hat.absent
    by_cases hexceeds : tree.Exceeds keySize
    · refine Or.inr (Or.inr ⟨habsent, hexceeds, ?_⟩)
      cases hstep with
      | met hu hequal hplaces => exact absurd hequal (hat.absent _ hu)
      | full _ hroom hfull => exact absurd hexceeds hroom
      | added _ hroom hp hne ht ht' => exact absurd rfl hne
      | restarted _ _ hfewer hagain =>
          rcases (hagain.of_nil rfl).right with ⟨_, _, hnil⟩ | ⟨hne, _⟩
          · rw [hvalid'.elements_eq, hnil]
            rfl
          · exact absurd rfl hne
    · refine Or.inr (Or.inl ⟨habsent, hexceeds, ?_⟩)
      rw [hinsert, if_neg (mt RbTree.overLimit_counting.mp hexceeds), insertElement] at hpass
      by_cases hfull : malloc (tree.counting parents keySize).nodes.heap = NULL
      · rw [if_pos hfull] at hpass
        cases hpass
        exact ⟨_, rfl, rfl, rfl, rfl, fun _ hi => absurd hi (Nat.not_lt_zero _)⟩
      · rw [if_neg hfull] at hpass
        rcases ok_of_bind hpass.symm with ⟨s, _, hdone⟩
        exact absurd (congrArg Prod.fst (Except.ok.inj hdone)) hfull
  · have hv : v ∈ (plug ctx (.node c a v b)).toList := by
      rw [toList_focus]
      exact List.mem_append_right _ (List.mem_cons_self ..)
    have hthere : ¬tree.Absent key := fun habsent => h.absent_iff.mp habsent v hv hequal
    refine Or.inl ⟨hthere, ?_⟩
    rw [hinsert, countElement] at hpass
    by_cases hflag : tree.flag % 2 = rbtree_NO_DUPLICATES
    · rw [if_pos hflag] at hpass
      cases hpass
      exact ⟨_, rfl, rfl, rfl, rfl, fun _ hi => absurd hi (Nat.not_lt_zero _)⟩
    · rw [if_neg hflag] at hpass
      rcases ok_of_bind hpass.symm with ⟨s, _, hdone⟩
      have haddr : v.addr = NULL := congrArg Prod.fst (Except.ok.inj hdone)
      rcases h.rep.holds.heap_eq hv with ⟨e, hcell, _⟩
      rw [haddr, h.rep.null_none] at hcell
      cases hcell

theorem charge_eq_iff (hlt : tree.allocated < 2 ^ 64) :
    tree.charge keySize = tree.allocated <-> allocSize tree keySize = 0 := by
  have hsize : allocSize tree keySize < 2 ^ 32 := Nat.mod_lt _ (Nat.two_pow_pos 32)
  have hcharge : tree.charge keySize = (tree.allocated + allocSize tree keySize) % 2 ^ 64 := rfl
  rw [hcharge]
  omega

theorem Harmless.sameState (hharmless : Harmless tree key keySize)
    (hlt : tree.allocated < 2 ^ 64) (hcompare : TotalPreorder tree.compare) (h : Valid tree t)
    (hmalloc : FreshMalloc malloc)
    (hinsert : rbtreeInsert tree key keySize malloc = .ok (NULL, tree')) :
    SameState tree tree' := by
  rcases rbtreeInsert_failed hcompare h hmalloc hinsert with
    ⟨_, hsame⟩ | ⟨habsent, _, hsame⟩ | ⟨habsent, hexceeds, _⟩
  · exact hsame
  · rcases hharmless with hthere | ⟨_, hnone⟩
    · exact absurd habsent hthere
    · rw [(charge_eq_iff hlt).mpr hnone] at hsame
      exact hsame
  · rcases hharmless with hthere | ⟨hroom, _⟩
    · exact absurd habsent hthere
    · exact absurd hexceeds hroom

theorem intact_iff_harmless (hlt : tree.allocated < 2 ^ 64) (hcompare : TotalPreorder tree.compare)
    (h : Valid tree t) (hmalloc : FreshMalloc malloc)
    (hinsert : rbtreeInsert tree key keySize malloc = .ok (NULL, tree')) :
    Intact tree tree' <-> Harmless tree key keySize := by
  constructor
  · intro hintact
    rcases rbtreeInsert_failed hcompare h hmalloc hinsert with
      ⟨hthere, _⟩ | ⟨_, hroom, ⟨s, rfl, _⟩⟩ | ⟨_, hexceeds, hempty⟩
    · exact Or.inl hthere
    · exact Or.inr ⟨hroom, (charge_eq_iff hlt).mp hintact.allocated_eq⟩
    · exact absurd (hintact.elements_eq.symm.trans hempty) hexceeds.right.left
  · intro hharmless
    exact (hharmless.sameState hlt hcompare h hmalloc hinsert).intact

/-!
## Reachable trees
-/

theorem InsertStep.allocated_lt {p : Ptr} (h : InsertStep malloc key keySize tree t p tree' t')
    (hlt : tree.allocated < 2 ^ 64) : tree'.allocated < 2 ^ 64 := by
  induction h with
  | met hu hequal hplaces => exact hlt
  | full habsent hroom hfull => exact Nat.mod_lt _ (Nat.two_pow_pos 64)
  | added habsent hroom hp hne ht ht' => exact Nat.mod_lt _ (Nat.two_pow_pos 64)
  | restarted habsent hexceeds hfewer hagain ih => exact ih (Nat.two_pow_pos 64)

theorem Valid.allocated_lt (h : Valid tree t) (hcompare : TotalPreorder tree.compare)
    (hallowed : call.Allowed tree) (hcall : call.apply tree = .ok (answer, tree'))
    (hlt : tree.allocated < 2 ^ 64) : tree'.allocated < 2 ^ 64 := by
  rcases Call.step h hcompare hallowed hcall with ⟨t', _, _, hstep⟩
  cases hstep with
  | inserted hstep => exact hstep.allocated_lt hlt
  | deleted hstep =>
      cases hstep with
      | kept hkept => exact hlt
      | removed hdelete hequal ht ht' => exact Nat.mod_lt _ (Nat.two_pow_pos 64)
  | reset => exact Nat.two_pow_pos 64
  | searched => exact hlt

variable {settings : Settings κ} {calls : List (Call κ)} {trace : List (Call κ × Answer κ)}

theorem Run.allocated_lt (h : settings.Proper)
    (hrun : Run Call.Allowed settings.start calls tree) : tree.allocated < 2 ^ 64 := by
  induction hrun with
  | nil => exact Nat.two_pow_pos 64
  | snoc hrun hallowed hcall ih =>
      rcases hrun.valid h with ⟨hsettings, t, hvalid⟩
      have hcompare : TotalPreorder settings.start.compare := h.compare
      rw [← hsettings.compare_eq] at hcompare
      exact hvalid.allocated_lt hcompare hallowed hcall ih

/-!
## Runs without the failures
-/

def Call.FailsHarmlessly (tree : RbTree κ) (answer : Answer κ) : Call κ -> Prop
  | .insert key keySize malloc =>
      FreshMalloc malloc ∧ (answer = .element NULL -> Harmless tree key keySize)
  | _ => True

inductive Recorded (start : RbTree κ) : List (Call κ × Answer κ) -> RbTree κ -> Prop
  | nil : Recorded start [] start
  | snoc {trace : List (Call κ × Answer κ)} {tree tree' : RbTree κ} {call : Call κ}
      {answer : Answer κ} : Recorded start trace tree -> call.FailsHarmlessly tree answer ->
      call.apply tree = .ok (answer, tree') -> Recorded start (trace ++ [(call, answer)]) tree'

def failedInsert : Call κ × Answer κ -> Bool
  | (.insert _ _ _, .element p) => p == NULL
  | _ => false

theorem Call.FailsHarmlessly.allowed (h : call.FailsHarmlessly tree answer) :
    call.Allowed tree := by
  cases call with
  | insert key keySize malloc => exact h.left
  | delete key keySize => trivial
  | reset => trivial
  | search key => trivial

theorem Recorded.run (h : Recorded settings.start trace tree) :
    exists calls, Run Call.Allowed settings.start calls tree := by
  induction h with
  | nil => exact ⟨[], .nil⟩
  | snoc _ hharmless hcall ih =>
      rcases ih with ⟨calls, hrun⟩
      exact ⟨_, hrun.snoc hharmless.allowed hcall⟩

theorem SameState.symm (h : SameState tree tree') : SameState tree' tree := by
  rcases h with ⟨s, rfl, h⟩
  exact ⟨tree.nodes, rfl, h.root_eq.symm, h.nullElement_eq.symm, h.heap_eq.symm,
    fun i hi => (h.parents_eq i hi).symm⟩

theorem SameState.trans {tree'' : RbTree κ} (hfirst : SameState tree tree')
    (hsecond : SameState tree' tree'') : SameState tree tree'' := by
  rcases hfirst with ⟨s, rfl, h⟩
  rcases hsecond with ⟨s', rfl, h'⟩
  exact ⟨s', rfl, h'.root_eq.trans h.root_eq, h'.nullElement_eq.trans h.nullElement_eq,
    h'.heap_eq.trans h.heap_eq, fun i hi => absurd hi (Nat.not_lt_zero i)⟩

theorem apply_alike (call : Call κ) (h : SameState tree tree') :
    Matches SameResult (call.apply tree) (call.apply tree') := by
  cases call with
  | insert key keySize malloc =>
      refine (rbtreeInsertWith_alike h).bind fun x y hxy => ?_
      exact .ok ⟨congrArg Answer.element hxy.left, hxy.right⟩
  | delete key keySize =>
      refine (rbtreeDelete_alike h).bind fun x y hxy => ?_
      exact .ok ⟨congrArg Answer.code hxy.left, hxy.right⟩
  | reset => exact (rbtreeReset_alike h).bind fun tree tree' h => .ok ⟨rfl, h⟩
  | search key =>
      rw [Call.apply, Call.apply, rbtreeSearch_alike h]
      exact Matches.bind_same fun found => .ok ⟨rfl, h⟩

theorem failedInsert_eq_true {step : Call κ × Answer κ} (h : failedInsert step = true) :
    exists key keySize malloc, step = (.insert key keySize malloc, .element NULL) := by
  rcases step with ⟨call, answer⟩
  cases call with
  | insert key keySize malloc =>
      cases answer with
      | element p =>
          rw [eq_of_beq (h : (p == NULL) = true)]
          exact ⟨key, keySize, malloc, rfl⟩
      | code r => cases h
      | nothing => cases h
      | key found => cases h
  | delete key keySize => cases h
  | reset => cases h
  | search key => cases h

/-- The calls but the insertions that failed lead to the same state. -/
theorem Recorded.pruned (h : settings.Proper) (hrun : Recorded settings.start trace tree) :
    exists tree', Recorded settings.start (trace.filter fun step => !failedInsert step) tree' ∧
      SameState tree tree' := by
  induction hrun with
  | nil => exact ⟨settings.start, .nil, SameState.refl _⟩
  | @snoc trace tree tree₁ call answer hrun hharmless hcall ih =>
      rcases ih with ⟨pruned, hpruned, hsame⟩
      rw [List.filter_append]
      cases hfailed : failedInsert (call, answer) with
      | true =>
          rcases failedInsert_eq_true hfailed with ⟨key, keySize, malloc, hstep⟩
          cases hstep
          rcases hrun.run with ⟨calls, hcalls⟩
          rcases hcalls.valid h with ⟨hsettings, t, hvalid⟩
          have hcompare : TotalPreorder settings.start.compare := h.compare
          rw [← hsettings.compare_eq] at hcompare
          rcases ok_of_bind hcall with ⟨⟨p, tree₂⟩, hinsert, hdone⟩
          cases hdone
          have hkept := (hharmless.right rfl).sameState (hcalls.allocated_lt h) hcompare hvalid
            hharmless.left hinsert
          refine ⟨pruned, ?_, hkept.symm.trans hsame⟩
          have hnone : [((.insert key keySize malloc, .element NULL) : Call κ × Answer κ)].filter
              (fun step => !failedInsert step) = [] := rfl
          rw [hnone, List.append_nil]
          exact hpruned
      | false =>
          have hone : [(call, answer)].filter (fun step => !failedInsert step) =
              [(call, answer)] := by
            rw [List.filter_cons, hfailed]
            rfl
          rcases (apply_alike call hsame).exists_ok hcall with ⟨⟨answer', pruned'⟩, hcall', hresult⟩
          rcases hresult with ⟨hanswer, hsame'⟩
          cases hanswer
          refine ⟨pruned', ?_, hsame'⟩
          rw [hone]
          refine hpruned.snoc ?_ hcall'
          cases call with
          | insert key keySize malloc =>
              refine ⟨hharmless.left, fun hnull => ?_⟩
              have hnull : answer = .element NULL := hnull
              subst hnull
              cases hfailed
          | delete key keySize => trivial
          | reset => trivial
          | search key => trivial

/-- A failed insertion into a reachable tree leaves it as it was exactly when it is
harmless, and where all are, a run without them leads to the same state. -/
theorem failed_insert_intact_iff (h : settings.Proper) :
    (forall calls tree key keySize malloc tree', Run Call.Allowed settings.start calls tree ->
      FreshMalloc malloc -> rbtreeInsert tree key keySize malloc = .ok (NULL, tree') ->
      (Intact tree tree' <-> Harmless tree key keySize)) ∧
    forall trace tree, Recorded settings.start trace tree -> exists tree',
      Recorded settings.start (trace.filter fun step => !failedInsert step) tree' ∧
        SameState tree tree' := by
  constructor
  · intro calls tree key keySize malloc tree' hrun hmalloc hinsert
    rcases hrun.valid h with ⟨hsettings, t, hvalid⟩
    have hcompare : TotalPreorder settings.start.compare := h.compare
    rw [← hsettings.compare_eq] at hcompare
    exact intact_iff_harmless (hrun.allocated_lt h) hcompare hvalid hmalloc hinsert
  · exact fun trace tree hrun => hrun.pruned h

def mallocNone : Malloc Int :=
  fun _ => NULL

def uniqueElements : Settings Int :=
  { twoElements with flag := rbtree_NO_DUPLICATES }

theorem uniqueElements_proper : uniqueElements.Proper :=
  ⟨twoElements_proper.nullAddress_ne, twoElements_proper.compare, twoElements_proper.pool⟩

/-- 5 is refused the second time, and an element whose size wraps around to nothing is
not allocated. -/
def refusedTrace : List (Call Int × Answer Int) :=
  [(.insert 5 0 (mallocAt 100), .element 100), (.insert 5 0 (mallocAt 101), .element NULL),
    (.insert 9 (2 ^ 32 - 32) mallocNone, .element NULL),
    (.insert 3 0 (mallocAt 101), .element 101), (.delete 5 0, .code 0)]

def refusedTree : RbTree Int :=
  treeAfter uniqueElements.start (refusedTrace.map Prod.fst)

def fiveTree : RbTree Int :=
  treeAfter uniqueElements.start [.insert 5 0 (mallocAt 100)]

theorem fiveTree_run :
    Run Call.Allowed uniqueElements.start [.insert 5 0 (mallocAt 100)] fiveTree :=
  Run.nil.snoc (freshMalloc_mallocAt 100) rfl

theorem fiveTree_harmless : Harmless fiveTree 9 (2 ^ 32 - 32) :=
  Or.inr ⟨fun hexceeds => absurd hexceeds.right.right (by decide), rfl⟩

theorem Recorded.insert {trace : List (Call Int × Answer Int)} {tree tree' : RbTree Int}
    {malloc : Malloc Int} (key : Int) (keySize : Nat) (p : Ptr)
    (hrun : Recorded uniqueElements.start trace tree) (hmalloc : FreshMalloc malloc)
    (hharmless : p = NULL -> Harmless tree key keySize)
    (hcall : (Call.insert key keySize malloc).apply tree = .ok (.element p, tree')) :
    Recorded uniqueElements.start (trace ++ [(.insert key keySize malloc, .element p)]) tree' :=
  hrun.snoc ⟨hmalloc, fun hnull => hharmless (Answer.element.inj hnull)⟩ hcall

theorem refusedTrace_recorded : Recorded uniqueElements.start refusedTrace refusedTree := by
  have hnone : FreshMalloc mallocNone := fun _ => Or.inl rfl
  have hstart : Recorded uniqueElements.start [] uniqueElements.start := Recorded.nil
  have hfive := hstart.insert 5 0 100 (freshMalloc_mallocAt 100)
    (fun hnull => absurd hnull (by decide)) rfl
  have hrefused := hfive.insert 5 0 NULL (freshMalloc_mallocAt 101)
    (fun _ => Or.inl fun habsent => habsent 100 _ 5 rfl rfl rfl) rfl
  have hfailed := hrefused.insert 9 (2 ^ 32 - 32) NULL hnone
    (fun _ => Or.inr ⟨fun hexceeds => absurd hexceeds.right.right (by decide), rfl⟩) rfl
  have hthree := hfailed.insert 3 0 101 (freshMalloc_mallocAt 101)
    (fun hnull => absurd hnull (by decide)) rfl
  exact hthree.snoc trivial rfl

theorem failed_insert_intact_refused :
    (exists tree', rbtreeInsert fiveTree 9 (2 ^ 32 - 32) mallocNone = .ok (NULL, tree') ∧
      Intact fiveTree tree') ∧
    exists tree', Recorded uniqueElements.start
        [(.insert 5 0 (mallocAt 100), .element 100), (.insert 3 0 (mallocAt 101), .element 101),
          (.delete 5 0, .code 0)] tree' ∧ SameState refusedTree tree' := by
  constructor
  · have hinsert : exists tree',
        rbtreeInsert fiveTree 9 (2 ^ 32 - 32) mallocNone = .ok (NULL, tree') := ⟨_, rfl⟩
    rcases hinsert with ⟨tree', hinsert⟩
    exact ⟨tree', hinsert, ((failed_insert_intact_iff uniqueElements_proper).left _ _ 9 _
      mallocNone tree' fiveTree_run (fun _ => Or.inl rfl) hinsert).mpr fiveTree_harmless⟩
  · exact (failed_insert_intact_iff uniqueElements_proper).right refusedTrace refusedTree
      refusedTrace_recorded

/-- The element that was not allocated is counted, and takes the place of one of
the two that there is room for. -/
theorem failed_insert_counted :
    (exists tree', rbtreeInsert twoElements.start 5 0 mallocNone = .ok (NULL, tree') ∧
      ¬Intact twoElements.start tree') ∧
    (exists tree, Run Call.Allowed twoElements.start (([] ++ [.insert 5 0 mallocNone]) ++
        [.insert 5 0 (mallocAt 100)] ++ [.insert 3 0 (mallocAt 101)]) tree ∧ tree.elements = 1) ∧
    exists tree, Run Call.Allowed twoElements.start
        ([] ++ [.insert 5 0 (mallocAt 100)] ++ [.insert 3 0 (mallocAt 101)]) tree ∧
      tree.elements = 2 := by
  have hnone : FreshMalloc mallocNone := fun _ => Or.inl rfl
  refine ⟨⟨_, rfl, fun hintact => absurd hintact.allocated_eq (by decide)⟩, ?_, ?_⟩
  · exact ⟨_, Run.snoc (Run.snoc (Run.snoc Run.nil hnone rfl) (freshMalloc_mallocAt 100) rfl)
      (freshMalloc_mallocAt 101) rfl, rfl⟩
  · exact ⟨_, Run.snoc (Run.snoc Run.nil (freshMalloc_mallocAt 100) rfl)
      (freshMalloc_mallocAt 101) rfl, rfl⟩

end RBTree
end MyLibs
