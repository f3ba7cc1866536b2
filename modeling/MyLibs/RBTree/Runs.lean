import MyLibs.RBTree.Deletion

/-!
# Runs

The calls a caller makes one after another, and what holds of every tree they
lead to.
-/

namespace MyLibs
namespace RBTree

open Foundation

structure Settings (κ : Type _) where
  nullAddress : Ptr
  memoryLimit : Nat
  size : Int
  compare : κ -> κ -> Int
  isDelete : Bool
  free : Bool
  freeRoot : (Ptr -> Option (Element κ)) -> Ptr -> Option (Element κ)
  flag : Nat

def Settings.start {κ : Type _} (settings : Settings κ) : RbTree κ :=
  { rbtreeInit settings.nullAddress settings.memoryLimit settings.size settings.compare
      settings.isDelete settings.free settings.freeRoot with flag := settings.flag }

/-- The tree is somewhere, the comparison function compares, and `free_root` gives back
what `alloc_root` has given. -/
structure Settings.Proper {κ : Type _} (settings : Settings κ) : Prop where
  nullAddress_ne : settings.nullAddress ≠ NULL
  compare : TotalPreorder settings.compare
  pool : FreesPool settings.freeRoot settings.nullAddress

inductive Call (κ : Type _) where
  | insert (key : κ) (keySize : Nat) (malloc : Malloc κ)
  | delete (key : κ) (keySize : Nat)
  | reset
  | search (key : κ)

inductive Answer (κ : Type _) where
  | element (p : Ptr)
  | code (r : Nat)
  | nothing
  | key (found : Option κ)

variable {κ : Type}

def Call.apply (tree : RbTree κ) : Call κ -> Except Fault (Answer κ × RbTree κ)
  | .insert key keySize malloc => do
      let (p, tree) <- rbtreeInsert tree key keySize malloc
      .ok (.element p, tree)
  | .delete key keySize => do
      let (r, tree) <- rbtreeDelete tree key keySize
      .ok (.code r, tree)
  | .reset => do
      let tree <- rbtreeReset tree
      .ok (.nothing, tree)
  | .search key => do
      let found <- rbtreeSearch tree key
      .ok (.key found, tree)

def Call.Allowed (_ : RbTree κ) : Call κ -> Prop
  | .insert _ _ malloc => FreshMalloc malloc
  | _ => True

inductive Run (Permitted : RbTree κ -> Call κ -> Prop) (start : RbTree κ) :
    List (Call κ) -> RbTree κ -> Prop
  | nil : Run Permitted start [] start
  | snoc {calls : List (Call κ)} {tree tree' : RbTree κ} {call : Call κ} {answer : Answer κ} :
      Run Permitted start calls tree -> Permitted tree call ->
      call.apply tree = .ok (answer, tree') -> Run Permitted start (calls ++ [call]) tree'

theorem Run.mono {Permitted Permitted' : RbTree κ -> Call κ -> Prop} {start tree : RbTree κ}
    {calls : List (Call κ)} (h : Run Permitted start calls tree)
    (hweaker : forall tree call, Permitted tree call -> Permitted' tree call) :
    Run Permitted' start calls tree := by
  induction h with
  | nil => exact .nil
  | snoc _ hpermitted hcall ih => exact ih.snoc (hweaker _ _ hpermitted) hcall

def Effect (tree : RbTree κ) (t : ColourTree (Node κ)) (answer : Answer κ)
    (t' : ColourTree (Node κ)) :
    Call κ -> Prop
  | .insert key _ malloc => exists p, answer = .element p ∧
      (Inserted tree.compare tree.flag (malloc tree.nodes.heap) key t p t' ∨
        tree.memoryLimit ≠ 0 ∧
          exists block, Inserted tree.compare tree.flag block key .nil p t')
  | .delete key _ => exists r, answer = .code r ∧
      Deleted tree.compare tree.isDelete key t r t'
  | .reset => answer = .nothing ∧ t' = .nil
  | .search key => exists found, answer = .key found ∧
      FoundIn tree.compare key t.toList found ∧ t' = t

variable {tree tree' : RbTree κ} {t : ColourTree (Node κ)} {call : Call κ} {settings : Settings κ}
  {calls : List (Call κ)}

/-- A call keeps the tree valid. It meets a fault only on a tree too high for the
stack. -/
theorem Valid.step (h : Valid tree t) (hcompare : TotalPreorder tree.compare)
    (hallowed : call.Allowed tree) :
    ((exists fault, call.apply tree = .error fault) ∧ MAX_rbtree_HEIGHT <= t.height) ∨
    exists answer tree' t', call.apply tree = .ok (answer, tree') ∧ Valid tree' t' ∧
      SameSettings tree tree' ∧ Effect tree t answer t' call := by
  have hturns : MAX_rbtree_HEIGHT <= turnLimit := by decide
  cases call with
  | insert key keySize malloc =>
      rcases rbtreeInsert_spec keySize hcompare h hallowed with
        ⟨⟨fault, herror⟩, hheight⟩ | ⟨p, tree', t', hinsert, hvalid, hsettings, hinserted⟩
      · exact Or.inl ⟨⟨fault, by rw [Call.apply, herror]; rfl⟩, hheight⟩
      · exact Or.inr ⟨.element p, tree', t', by rw [Call.apply, hinsert]; rfl, hvalid,
          hsettings, p, rfl, hinserted⟩
  | delete key keySize =>
      rcases rbtreeDelete_spec keySize hcompare h with
        ⟨⟨fault, herror⟩, hheight⟩ | ⟨r, tree', t', hdelete, hvalid, hsettings, hdeleted⟩
      · exact Or.inl ⟨⟨fault, by rw [Call.apply, herror]; rfl⟩, hheight⟩
      · exact Or.inr ⟨.code r, tree', t', by rw [Call.apply, hdelete]; rfl, hvalid,
          hsettings, r, rfl, hdeleted⟩
  | reset =>
      rcases rbtreeReset_spec h with
        ⟨⟨fault, herror⟩, hheight⟩ | ⟨tree', hreset, hvalid, hsettings, _⟩
      · exact Or.inl ⟨⟨fault, by rw [Call.apply, herror]; rfl⟩, Nat.le_trans hturns hheight⟩
      · exact Or.inr ⟨.nothing, tree', .nil, by rw [Call.apply, hreset]; rfl, hvalid,
          hsettings, rfl, rfl⟩
  | search key =>
      rcases rbtreeSearch_spec hcompare h.rep h.ascending key with
        ⟨⟨fault, herror⟩, hheight⟩ | ⟨r, hsearch, hfound⟩
      · exact Or.inl ⟨⟨fault, by rw [Call.apply, herror]; rfl⟩, Nat.le_trans hturns hheight⟩
      · exact Or.inr ⟨.key r, tree, t, by rw [Call.apply, hsearch]; rfl, h,
          SameSettings.refl tree, r, rfl, hfound, rfl⟩

theorem Settings.start_heap (settings : Settings κ) : settings.start.nodes.heap =
    Function.update (fun _ => none) settings.nullAddress (some nullElement) :=
  rfl

theorem Settings.Proper.valid_start (h : settings.Proper) : Valid settings.start .nil where
  rep := {
    root_eq := rfl
    holds := trivial
    nodup := List.nodup_nil
    null_notMem := List.not_mem_nil
    sentinel := by
      rw [settings.start_heap]
      exact Function.update_self ..
    null_none := by
      rw [settings.start_heap]
      exact Function.update_of_ne h.nullAddress_ne.symm .. }
  redBlack := redBlackTree_nil
  ascending := List.Pairwise.nil
  elements_eq := rfl
  count := fun v hv => by cases hv
  owned := by
    intro p hp
    rw [settings.start_heap] at hp
    refine Or.inl ?_
    by_contra hne
    exact hp (Function.update_of_ne hne ..)
  pool := h.pool

theorem Run.valid (h : settings.Proper) (hrun : Run Call.Allowed settings.start calls tree) :
    SameSettings settings.start tree ∧ exists t, Valid tree t := by
  induction hrun with
  | nil => exact ⟨SameSettings.refl _, .nil, h.valid_start⟩
  | snoc _ hallowed hcall ih =>
      rcases ih with ⟨hsettings, t, hvalid⟩
      have hcompare : TotalPreorder settings.start.compare := h.compare
      rw [← hsettings.compare_eq] at hcompare
      rcases hvalid.step hcompare hallowed with
        ⟨⟨fault, herror⟩, _⟩ | ⟨answer, tree', t', hcall', hvalid', hsettings', _⟩
      · rw [hcall] at herror
        cases herror
      · rw [hcall] at hcall'
        cases hcall'
        exact ⟨hsettings.trans hsettings', t', hvalid'⟩

/-!
## The shape of reachable trees
-/

/-- Every reachable tree is a search tree that keeps the colour rules; the
sentinel is as `rbtree_init` left it, and `test_rb_tree` finds nothing wrong. -/
theorem reachable_redBlack (h : settings.Proper)
    (hrun : Run Call.Allowed settings.start calls tree) :
    exists t : ColourTree (Node κ), Rep tree.nodes t ∧
      t.toList.Pairwise (fun u v => settings.compare u.key v.key < 0) ∧
      t.colour = .black ∧ t.NoRedChild ∧
      (exists n, forall m, m ∈ t.blackCounts -> m = n) ∧
      tree.nodes.nullElement = settings.nullAddress ∧
      tree.nodes.heap settings.nullAddress = some nullElement ∧
      exists count, 0 <= count ∧ forall fuel, t.height < fuel ->
        testRbTree tree.nodes fuel tree.nodes.root = .ok count := by
  rcases hrun.valid h with ⟨hsettings, t, hvalid⟩
  rcases hvalid.redBlack with ⟨hblack, n, hrb⟩
  have hnull : tree.nodes.nullElement = settings.nullAddress := hsettings.nullElement_eq
  have hascending := hvalid.ascending
  rw [hsettings.compare_eq] at hascending
  have hsentinel := hvalid.rep.sentinel
  rw [hnull] at hsentinel
  have hrep : Rep tree.nodes (plug [] t) := hvalid.rep
  refine ⟨t, hvalid.rep, hascending, hblack, hrb.noRedChild, ⟨n, hrb.blackCounts_eq⟩, hnull,
    hsentinel, n, Int.natCast_nonneg n, fun fuel hfuel => ?_⟩
  rw [hvalid.rep.root_eq]
  exact testRbTree_spec hfuel hrep hrb

theorem Valid.call_returns (h : Valid tree t) (hcompare : TotalPreorder tree.compare)
    (hsize : t.size < 2 ^ 32) (hallowed : call.Allowed tree) :
    exists answer tree', call.apply tree = .ok (answer, tree') := by
  have hheight := h.redBlack.height_le hsize
  have hroom : 62 < MAX_rbtree_HEIGHT := by decide
  rcases h.step hcompare hallowed with ⟨_, hhigh⟩ | ⟨answer, tree', t', hcall, _⟩
  · omega
  · exact ⟨answer, tree', hcall⟩

/-- With less than 2^32 elements no call meets a fault: every index into
`parents` is inside of it, every pointer followed leads to an element, and all
loops end. -/
theorem calls_meet_no_fault (h : settings.Proper)
    (hrun : Run Call.Allowed settings.start calls tree) :
    exists t : ColourTree (Node κ), Rep tree.nodes t ∧ (t.size < 2 ^ 32 ->
      forall call : Call κ, call.Allowed tree ->
        exists answer tree', call.apply tree = .ok (answer, tree')) := by
  rcases hrun.valid h with ⟨hsettings, t, hvalid⟩
  have hcompare : TotalPreorder settings.start.compare := h.compare
  rw [← hsettings.compare_eq] at hcompare
  exact ⟨t, hvalid.rep, fun hsize _ hallowed => hvalid.call_returns hcompare hsize hallowed⟩

def integerSettings : Settings Int where
  nullAddress := 1
  memoryLimit := 0
  size := 8
  compare := fun k l => k - l
  isDelete := true
  free := false
  freeRoot := fun heap p => if p = 1 then heap p else none
  flag := 0

theorem integerSettings_proper : integerSettings.Proper where
  nullAddress_ne := by decide
  compare := {
    swap := by
      intro k l
      simp only [integerSettings]
      omega
    trans := by
      intro k l m
      simp only [integerSettings]
      omega }
  pool := {
    kept := fun heap => show (if (1 : Ptr) = 1 then heap 1 else none) = heap 1 from if_pos rfl
    gone := fun heap p hne => show (if p = 1 then heap p else none) = none from if_neg hne }

def twoElements : Settings Int :=
  { integerSettings with memoryLimit := 64 }

theorem twoElements_proper : twoElements.Proper :=
  ⟨integerSettings_proper.nullAddress_ne, integerSettings_proper.compare,
    integerSettings_proper.pool⟩

def treeAfter (start : RbTree κ) (calls : List (Call κ)) : RbTree κ :=
  calls.foldl (fun tree call => match call.apply tree with
    | .ok (_, tree) => tree
    | .error _ => tree) start

def mallocAt {κ : Type _} (p : Ptr) : Malloc κ :=
  fun heap => if (heap p).isSome then NULL else p

theorem freshMalloc_mallocAt (p : Ptr) : FreshMalloc (mallocAt p : Malloc κ) := by
  intro heap
  rw [mallocAt]
  cases hp : heap p with
  | none => exact Or.inr hp
  | some e => exact Or.inl rfl

def shortRun : List (Call Int) :=
  [.insert 5 0 (mallocAt 100), .insert 3 0 (mallocAt 101), .delete 5 0]

theorem shortRun_run : exists tree, Run Call.Allowed integerSettings.start shortRun tree := by
  have hrun : exists tree, Run Call.Allowed integerSettings.start
      ((([] ++ [.insert 5 0 (mallocAt 100)]) ++ [.insert 3 0 (mallocAt 101)]) ++
        [.delete 5 0]) tree := by
    refine ⟨_, Run.snoc (Run.snoc (Run.snoc Run.nil ?_ rfl) ?_ rfl) ?_ rfl⟩
    · exact freshMalloc_mallocAt 100
    · exact freshMalloc_mallocAt 101
    · trivial
  exact hrun

theorem reachable_redBlack_shortRun : exists tree,
    Run Call.Allowed integerSettings.start shortRun tree ∧
      exists t : ColourTree (Node Int), Rep tree.nodes t ∧ t.colour = .black ∧ t.NoRedChild := by
  rcases shortRun_run with ⟨tree, hrun⟩
  rcases reachable_redBlack integerSettings_proper hrun with ⟨t, hrep, _, hblack, hred, _⟩
  exact ⟨tree, hrun, t, hrep, hblack, hred⟩

theorem calls_meet_no_fault_shortRun : exists tree,
    Run Call.Allowed integerSettings.start shortRun tree ∧
      exists t : ColourTree (Node Int), Rep tree.nodes t ∧ (t.size < 2 ^ 32 ->
        exists answer tree', (Call.insert 4 0 (mallocAt 102)).apply tree =
          .ok (answer, tree')) := by
  rcases shortRun_run with ⟨tree, hrun⟩
  rcases calls_meet_no_fault integerSettings_proper hrun with ⟨t, hrep, hcalls⟩
  exact ⟨tree, hrun, t, hrep, fun hsize => hcalls hsize _ (freshMalloc_mallocAt 102)⟩

end RBTree
end MyLibs
