import MyLibs.RBTree.Accounts

/-!
# The memory limit

Runs in which every key is deleted with the size it was inserted with, and all
allocations succeed.
-/

namespace MyLibs
namespace RBTree

open Foundation

variable {κ : Type} {t t' : ColourTree (Node κ)} {tree tree' : RbTree κ} {key : κ} {p : Ptr}
  {sizes sizes' : Ptr -> Nat} {settings : Settings κ}

/-!
## Runs with the sizes of the keys
-/

/-- What a caller is asked for: all allocations succeed, sizes fit in 32 bits, and
a key is deleted with the size it was inserted with. -/
def Call.Sized (sizes : Ptr -> Nat) (tree : RbTree κ) : Call κ -> Prop
  | .insert key keySize malloc =>
      FreshMalloc malloc ∧ (tree.Absent key -> Affords malloc keySize tree)
  | .delete key keySize => forall p e k, tree.nodes.heap p = some e -> e.key = some k ->
      tree.compare k key = 0 -> sizes p = keySize
  | _ => True

def Call.Records (sizes : Ptr -> Nat) (tree : RbTree κ) (answer : Answer κ)
    (sizes' : Ptr -> Nat) : Call κ -> Prop
  | .insert key keySize _ => forall p, answer = .element p ->
      (tree.Absent key -> sizes' = Function.update sizes p keySize) ∧
        (¬tree.Absent key -> sizes' = sizes)
  | _ => sizes' = sizes

/-- The trees some calls lead to, each made on a tree that is `Bounded`, with the
sizes of their keys. -/
inductive SizedRun (Bounded : RbTree κ -> Prop) (start : RbTree κ) :
    (Ptr -> Nat) -> RbTree κ -> Prop
  | nil {sizes : Ptr -> Nat} : SizedRun Bounded start sizes start
  | snoc {sizes sizes' : Ptr -> Nat} {tree tree' : RbTree κ} {call : Call κ} {answer : Answer κ} :
      SizedRun Bounded start sizes tree -> Bounded tree -> call.Sized sizes tree ->
      call.apply tree = .ok (answer, tree') -> call.Records sizes tree answer sizes' ->
      SizedRun Bounded start sizes' tree'

def RbTree.Countable (tree : RbTree κ) : Prop :=
  forall t, Rep tree.nodes t -> t.size < 2 ^ 32

theorem Call.Sized.allowed {call : Call κ} (h : call.Sized sizes tree) : call.Allowed tree := by
  cases call with
  | insert key keySize malloc => exact h.left
  | delete key keySize => trivial
  | reset => trivial
  | search key => trivial

theorem Accounted.step {call : Call κ} {answer : Answer κ} (h : Accounted sizes tree t)
    (hvalid : Valid tree t) (hcompare : TotalPreorder tree.compare) (hfew : t.size < 2 ^ 32)
    (hsized : call.Sized sizes tree) (hcall : call.apply tree = .ok (answer, tree'))
    (hrecords : call.Records sizes tree answer sizes') :
    exists t', Valid tree' t' ∧ SameSettings tree tree' ∧ Accounted sizes' tree' t' := by
  rcases Call.step hvalid hcompare hsized.allowed hcall with ⟨t', hvalid', hsettings, hstep⟩
  refine ⟨t', hvalid', hsettings, ?_⟩
  cases hstep with
  | @inserted malloc key keySize p _ _ hstep =>
      rcases hrecords p rfl with ⟨hnew, hold⟩
      refine h.insert hstep hfew hvalid'.rep.nodup ?_ ?_
      · intro habsent
        have habsent := hvalid.absent_iff.mpr habsent
        exact ⟨hsized.right habsent, hnew habsent⟩
      · intro hthere
        refine hold fun habsent => ?_
        rcases hthere with ⟨u, hu, hequal⟩
        exact hvalid.absent_iff.mp habsent u hu hequal
  | deleted hstep =>
      cases hrecords
      refine Accounted.delete hstep hvalid h hfew ?_
      intro u hu hequal
      rcases hvalid.rep.holds.heap_eq hu with ⟨e, hcell, hkey⟩
      exact hsized u.addr e u.key hcell hkey hequal
  | reset =>
      cases hrecords
      exact Accounted.empty
  | searched =>
      cases hrecords
      exact h

theorem Valid.countable (h : Valid tree t) (hfew : t.size < 2 ^ 32) : tree.Countable := by
  intro t' hrep
  rw [hrep.unique h.rep]
  exact hfew

theorem SizedRun.accounted (h : settings.Proper)
    (hrun : SizedRun RbTree.Countable settings.start sizes tree) :
    SameSettings settings.start tree ∧ exists t, Valid tree t ∧ Accounted sizes tree t := by
  induction hrun with
  | nil =>
      refine ⟨SameSettings.refl _, .nil, h.valid_start, rfl, fun u hu => ?_, fun _ => ?_⟩
      · cases hu
      · exact Or.inl (Nat.zero_le 1)
  | snoc _ hbounded hsized hcall hrecords ih =>
      rcases ih with ⟨hsettings, t, hvalid, haccounted⟩
      have hcompare : TotalPreorder settings.start.compare := h.compare
      rw [← hsettings.compare_eq] at hcompare
      rcases haccounted.step hvalid hcompare (hbounded t hvalid.rep) hsized hcall hrecords with
        ⟨t', hvalid', hsettings', haccounted'⟩
      exact ⟨hsettings.trans hsettings', t', hvalid', haccounted'⟩

/-- While there are less than 2^32 elements, `allocated` is the size of all of
them, the memory limit is kept, and an insertion of a new key keeps the earlier
elements exactly when the limit lets it. -/
theorem memory_limit_kept (h : settings.Proper)
    (hrun : SizedRun RbTree.Countable settings.start sizes tree) :
    exists t : ColourTree (Node κ), Rep tree.nodes t ∧
      tree.allocated = total sizes tree.size t.toList ∧
      (forall u, u ∈ t.toList ->
        sizeofElement + sizes u.addr + tree.size <= tree.allocated) ∧
      (tree.memoryLimit ≠ 0 -> tree.elements <= 1 ∨ tree.allocated <= tree.memoryLimit) ∧
      (tree.Countable -> forall key keySize malloc, FreshMalloc malloc -> tree.Absent key ->
        Affords malloc keySize tree -> exists p tree' t',
          rbtreeInsert tree key keySize malloc = .ok (p, tree') ∧ Rep tree'.nodes t' ∧
            Outcome malloc key keySize tree t p tree' t') := by
  rcases hrun.accounted h with ⟨hsettings, t, hvalid, haccounted⟩
  refine ⟨t, hvalid.rep, haccounted.allocated_eq, fun u hu => haccounted.le_allocated hu,
    haccounted.limit, ?_⟩
  intro hcountable key keySize malloc hmalloc habsent haffords
  have hcompare : TotalPreorder settings.start.compare := h.compare
  rw [← hsettings.compare_eq] at hcompare
  exact haccounted.outcome hvalid hcompare (hcountable t hvalid.rep) hmalloc haffords
    (hvalid.absent_iff.mp habsent)

/-!
## A run that comes to the limit
-/

theorem length_le_total (sizes : Ptr -> Nat) (size : Nat) (l : List (Node κ)) :
    l.length <= total sizes size l := by
  induction l with
  | nil => exact Nat.zero_le _
  | cons u l ih =>
      have helement : 0 < sizeofElement := by decide
      rw [total_cons, List.length_cons]
      omega

theorem SizedRun.countable (h : settings.Proper)
    (hrun : SizedRun RbTree.Countable settings.start sizes tree) (hlow : tree.allocated < 2 ^ 32) :
    tree.Countable := by
  rcases hrun.accounted h with ⟨_, t, hvalid, haccounted⟩
  refine hvalid.countable ?_
  rw [haccounted.allocated_eq] at hlow
  rw [← ColourTree.length_toList]
  exact Nat.lt_of_le_of_lt (length_le_total ..) hlow

theorem SizedRun.insertAt {tree tree' : RbTree Int} {answer : Answer Int} (key : Int) (p : Ptr)
    (hrun : SizedRun RbTree.Countable twoElements.start (fun _ => 0) tree)
    (hlow : tree.allocated < 2 ^ 32) (hsize : tree.size = 8) (hfree : tree.nodes.heap p = none)
    (hp : p ≠ NULL) (hcall : (Call.insert key 0 (mallocAt p)).apply tree = .ok (answer, tree')) :
    SizedRun RbTree.Countable twoElements.start (fun _ => 0) tree' := by
  have hcountable := hrun.countable twoElements_proper hlow
  have hsized : (Call.insert key 0 (mallocAt p)).Sized (fun _ => 0) tree := by
    refine ⟨freshMalloc_mallocAt p, fun _ => ⟨fun heap hfewer => ?_, ?_⟩⟩
    · rw [mallocAt, hfewer p hfree]
      exact hp
    · rw [hsize]
      decide
  exact hrun.snoc hcountable hsized hcall
    fun q _ => ⟨fun _ => (Function.update_eq_self q _).symm, fun _ => rfl⟩

theorem SizedRun.other {tree tree' : RbTree Int} {answer : Answer Int} (call : Call Int)
    (hrun : SizedRun RbTree.Countable twoElements.start (fun _ => 0) tree)
    (hlow : tree.allocated < 2 ^ 32) (hsized : call.Sized (fun _ => 0) tree)
    (hrecords : call.Records (fun _ => 0) tree answer fun _ => 0)
    (hcall : call.apply tree = .ok (answer, tree')) :
    SizedRun RbTree.Countable twoElements.start (fun _ => 0) tree' :=
  hrun.snoc (hrun.countable twoElements_proper hlow) hsized hcall hrecords

def limitTree : RbTree Int :=
  treeAfter twoElements.start [.insert 5 0 (mallocAt 100), .insert 3 0 (mallocAt 101),
    .delete 5 0, .insert 8 0 (mallocAt 102), .insert 9 0 (mallocAt 103), .reset,
    .insert 7 0 (mallocAt 104), .insert 6 0 (mallocAt 105)]

theorem limitTree_run :
    SizedRun RbTree.Countable twoElements.start (fun _ => 0) limitTree := by
  have hstart : SizedRun RbTree.Countable twoElements.start (fun _ => 0) twoElements.start :=
    SizedRun.nil
  have htwo := (hstart.insertAt 5 100 (by decide) rfl rfl (by decide) rfl).insertAt 3 101
    (by decide) rfl rfl (by decide) rfl
  have hdeleted := htwo.other (.delete 5 0) (by decide) (fun _ _ _ _ _ _ => rfl) rfl rfl
  have hlimited := (hdeleted.insertAt 8 102 (by decide) rfl rfl (by decide) rfl).insertAt 9 103
    (by decide) rfl rfl (by decide) rfl
  have hreset := hlimited.other .reset (by decide) trivial rfl rfl
  exact (hreset.insertAt 7 104 (by decide) rfl rfl (by decide) rfl).insertAt 6 105 (by decide)
    rfl rfl (by decide) rfl

theorem limitTree_absent : limitTree.Absent 2 := by
  rcases limitTree_run.accounted twoElements_proper with ⟨hsettings, t, hvalid, _⟩
  have hcompare : TotalPreorder twoElements.start.compare := twoElements_proper.compare
  rw [← hsettings.compare_eq] at hcompare
  have hsearch : rbtreeSearch limitTree 2 = .ok none := rfl
  rcases rbtreeSearch_spec hcompare hvalid.rep hvalid.ascending 2 with
    ⟨⟨fault, herror⟩, _⟩ | ⟨found, hfound, hnone⟩
  · rw [hsearch] at herror
    cases herror
  · rw [hsearch] at hfound
    cases hfound
    exact hvalid.absent_iff.mpr hnone

theorem memory_limit_kept_limitTree : exists t : ColourTree (Node Int),
    Rep limitTree.nodes t ∧ limitTree.allocated = total (fun _ => 0) limitTree.size t.toList ∧
      limitTree.allocated = 64 ∧
      exists p tree' t', rbtreeInsert limitTree 2 0 (mallocAt 106) = .ok (p, tree') ∧
        Rep tree'.nodes t' ∧ t'.toList = [⟨p, 2, 1⟩] := by
  rcases memory_limit_kept twoElements_proper limitTree_run with
    ⟨t, hrep, hallocated, _, _, hinsert⟩
  have hcountable := limitTree_run.countable twoElements_proper (by decide)
  have haffords : Affords (mallocAt 106) 0 limitTree := by
    refine ⟨fun heap hfewer => ?_, by decide⟩
    rw [mallocAt, hfewer 106 rfl]
    decide
  rcases hinsert hcountable 2 0 (mallocAt 106) (freshMalloc_mallocAt 106) limitTree_absent
      haffords with ⟨p, tree', t', hcall, hrep', houtcome⟩
  refine ⟨t, hrep, hallocated, rfl, p, tree', t', hcall, hrep',
    houtcome.alone ⟨by decide, fun hnil => ?_, by decide⟩⟩
  rw [hnil] at hallocated
  exact absurd hallocated (by decide)

/-!
## Counting beyond 2^32
-/

def limitedSettings : Settings Int :=
  { integerSettings with memoryLimit := 2 ^ 32 * 32 }

theorem limitedSettings_proper : limitedSettings.Proper :=
  ⟨integerSettings_proper.nullAddress_ne, integerSettings_proper.compare,
    integerSettings_proper.pool⟩

section Counting

variable {n : Nat} {tree tree' : RbTree Int} {t t' : ColourTree (Node Int)}

theorem Counting.affords (h : Counting n tree t) (hsize : tree.size = 8) :
    Affords (mallocAt (64 * (n + 1))) 0 tree where
  succeeds := by
    intro heap hfewer
    rw [h.block_eq hfewer]
    exact Counting.block_ne n
  small := by
    rw [hsize]
    decide

theorem Counting.insert (h : Counting n tree t) (hn : n <= 2 ^ 32) (hsize : tree.size = 8)
    (hroom : ¬tree.Exceeds 0) :
    exists tree' t', rbtreeInsert tree n 0 (mallocAt (64 * (n + 1))) =
        .ok (64 * (n + 1), tree') ∧
      Counting (n + 1) tree' t' ∧ SameSettings tree tree' ∧ tree'.size = 8 ∧
      tree'.allocated = tree.charge 0 := by
  have hmalloc := freshMalloc_mallocAt (κ := Int) (64 * (n + 1))
  have hlow : 62 < MAX_rbtree_HEIGHT := by decide
  have hsmall : t.size <= 2 ^ 32 := by
    rw [h.size_eq]
    exact hn
  have hheight := h.valid.redBlack.height_le_of_le hsmall
  rcases rbtreeInsert_spec 0 h.preorder h.valid hmalloc with
    ⟨_, hhigh⟩ | ⟨p, tree', _, hinsert, _⟩
  · omega
  rcases rbtreeInsertWith_step h.preorder h.valid hmalloc hinsert with
    ⟨t', hvalid', hsettings, hstep⟩
  cases hstep with
  | met hu hequal hplaces => exact absurd hequal (h.absent _ hu)
  | full _ _ hfull => exact absurd hfull ((h.affords hsize).succeeds _ fun _ hq => hq)
  | added _ _ hp hne ht ht' =>
      have hplace := hp.trans (h.block_eq fun _ hq => hq)
      subst hplace
      exact ⟨_, t', hinsert, h.next hvalid' hsettings ht ht', hsettings, hsize, rfl⟩
  | restarted _ hexceeds _ _ => exact absurd hexceeds hroom

theorem charge_eq (hn : n + 1 <= 2 ^ 32) (hsize : tree.size = 8)
    (hallocated : tree.allocated = n * 32) : tree.charge 0 = (n + 1) * 32 := by
  have hblock : sizeofElement + 0 + 8 = 32 := rfl
  rw [RbTree.charge, hallocated, allocSize, hsize, hblock, uint_of_lt (by decide), sizet,
    Nat.succ_mul]
  exact Nat.mod_eq_of_lt (by omega)

theorem Counting.snoc (h : Counting n tree t) (hn : n < 2 ^ 32)
    (hrun : SizedRun RbTree.Countable limitedSettings.start (fun _ => 0) tree)
    (hsize : tree.size = 8)
    (hinsert : rbtreeInsert tree n 0 (mallocAt (64 * (n + 1))) = .ok (64 * (n + 1), tree')) :
    SizedRun RbTree.Countable limitedSettings.start (fun _ => 0) tree' := by
  have hfew : t.size < 2 ^ 32 := by
    rw [h.size_eq]
    exact hn
  have hcall : (Call.insert (n : Int) 0 (mallocAt (64 * (n + 1)))).apply tree =
      .ok (.element (64 * (n + 1)), tree') := by
    rw [Call.apply, hinsert]
    rfl
  have hsized : (Call.insert (n : Int) 0 (mallocAt (64 * (n + 1)))).Sized (fun _ => 0) tree :=
    ⟨freshMalloc_mallocAt _, fun _ => h.affords hsize⟩
  have hrecords : (Call.insert (n : Int) 0 (mallocAt (64 * (n + 1)))).Records (fun _ => 0) tree
      (.element (64 * (n + 1))) (fun _ => 0) :=
    fun p _ => ⟨fun _ => (Function.update_eq_self p _).symm, fun _ => rfl⟩
  exact hrun.snoc (h.valid.countable hfew) hsized hcall hrecords

/-- Up to 2^32 elements are within the limit. -/
theorem counting_limited (n : Nat) (hn : n <= 2 ^ 32) : exists tree t,
    SizedRun RbTree.Countable limitedSettings.start (fun _ => 0) tree ∧ Counting n tree t ∧
      tree.memoryLimit = 2 ^ 32 * 32 ∧ tree.size = 8 ∧ tree.allocated = n * 32 := by
  induction n with
  | zero =>
      exact ⟨limitedSettings.start, .nil, .nil,
        ⟨limitedSettings_proper.valid_start, rfl, rfl, rfl, fun u hu => by cases hu⟩, rfl, rfl, rfl⟩
  | succ n ih =>
      rcases ih (Nat.le_of_succ_le hn) with
        ⟨tree, t, hrun, hcounting, hlimit, hsize, hallocated⟩
      have hcharge := charge_eq hn hsize hallocated
      have hroom : ¬tree.Exceeds 0 := by
        intro hexceeds
        have hover := hexceeds.right.right
        rw [hlimit, hcharge] at hover
        omega
      rcases hcounting.insert (Nat.le_of_succ_le hn) hsize hroom with
        ⟨tree', t', hinsert, hcounting', hsettings, hsize', hallocated'⟩
      exact ⟨tree', t', hcounting.snoc hn hrun hsize hinsert, hcounting',
        hsettings.memoryLimit_eq.trans hlimit, hsize', hallocated'.trans hcharge⟩

end Counting

theorem SizedRun.mono {Bounded Bounded' : RbTree κ -> Prop} {start : RbTree κ}
    (hsub : forall tree, Bounded tree -> Bounded' tree) (h : SizedRun Bounded start sizes tree) :
    SizedRun Bounded' start sizes tree := by
  induction h with
  | nil => exact .nil
  | snoc _ hbounded hsized hcall hrecords ih =>
      exact ih.snoc (hsub _ hbounded) hsized hcall hrecords

/-- With 2^32 elements the tree counts none, and a new one that takes more than
the limit leaves them all. -/
theorem memory_limit_missed : exists tree,
    SizedRun (fun _ => True) limitedSettings.start (fun _ => 0) tree ∧
      exists t : ColourTree (Node Int), Rep tree.nodes t ∧ t.size = 2 ^ 32 ∧
        OverLimit tree t 0 ∧ tree.Absent (2 ^ 32) ∧
        Affords (mallocAt (64 * (2 ^ 32 + 1))) 0 tree ∧
        exists p tree' t', rbtreeInsert tree (2 ^ 32) 0 (mallocAt (64 * (2 ^ 32 + 1))) =
          .ok (p, tree') ∧ Rep tree'.nodes t' ∧ t'.size = 2 ^ 32 + 1 := by
  rcases counting_limited (2 ^ 32) (Nat.le_refl _) with
    ⟨tree, t, hrun, hcounting, hlimit, hsize, hallocated⟩
  have hzero : tree.elements = 0 := by
    rw [hcounting.valid.elements_eq, hcounting.size_eq]
    rfl
  have hroom : ¬tree.Exceeds 0 := fun hexceeds => hexceeds.right.left hzero
  rcases hcounting.insert (Nat.le_refl _) hsize hroom with
    ⟨tree', t', hinsert, hcounting', _⟩
  refine ⟨tree, hrun.mono fun _ _ => trivial, t, hcounting.valid.rep, hcounting.size_eq,
    ⟨?_, ?_, ?_⟩, hcounting.valid.absent_iff.mpr hcounting.absent, hcounting.affords hsize, _,
    tree', t', hinsert, hcounting'.valid.rep, hcounting'.size_eq⟩
  · rw [hlimit]
    decide
  · intro hnil
    have hcount := hcounting.size_eq
    rw [hnil] at hcount
    cases hcount
  · rw [hlimit, hallocated, hsize]
    decide

end RBTree
end MyLibs
