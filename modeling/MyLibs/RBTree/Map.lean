import MyLibs.RBTree.Runs

/-!
# The tree as a finite map

Keys that compare equal are one class. The tree maps a class to the first key
inserted for it and a count.
-/

namespace MyLibs
namespace RBTree

open Foundation

variable {κ : Type}

def setClass (compare : κ -> κ -> Int) (key : κ) (value : Option (κ × Nat))
    (map : κ -> Option (κ × Nat)) : κ -> Option (κ × Nat) :=
  fun k => if compare k key = 0 then value else map k

def Call.onMap (compare : κ -> κ -> Int) (flag : Nat) (map : κ -> Option (κ × Nat)) :
    Call κ -> κ -> Option (κ × Nat)
  | .insert key _ _ =>
      match map key with
      | none => setClass compare key (some (key, 1)) map
      | some (first, count) =>
          if flag % 2 = rbtree_NO_DUPLICATES then
            map
          else
            setClass compare key (some (first, min (count + 1) (2 ^ 31 - 1))) map
  | .delete key _ => setClass compare key none map
  | .reset => fun _ => none
  | .search _ => map

def mapAfter (compare : κ -> κ -> Int) (flag : Nat) (calls : List (Call κ)) :
    κ -> Option (κ × Nat) :=
  calls.foldl (Call.onMap compare flag) fun _ => none

theorem mapAfter_snoc (compare : κ -> κ -> Int) (flag : Nat) (calls : List (Call κ))
    (call : Call κ) : mapAfter compare flag (calls ++ [call]) =
      call.onMap compare flag (mapAfter compare flag calls) := by
  rw [mapAfter, List.foldl_append]
  rfl

def NumberOfClasses (compare : κ -> κ -> Int) (map : κ -> Option (κ × Nat)) (n : Nat) : Prop :=
  exists keys : List κ, keys.Pairwise (fun k l => compare k l ≠ 0) ∧
    (forall k, map k ≠ none <-> exists l, l ∈ keys ∧ compare l k = 0) ∧ keys.length = n

/-!
## What the elements map
-/

def Node.entry (u : Node κ) : κ × Nat :=
  (u.key, u.count)

def Agrees (compare : κ -> κ -> Int) (l : List (Node κ)) (map : κ -> Option (κ × Nat)) : Prop :=
  forall k entry, map k = some entry <->
    exists u, u ∈ l ∧ compare u.key k = 0 ∧ u.entry = entry

variable {compare : κ -> κ -> Int} {key : κ} {l l' : List (Node κ)}
  {map : κ -> Option (κ × Nat)} {u : Node κ}

theorem Agrees.eq_some (h : Agrees compare l map) (hu : u ∈ l)
    (hequal : compare u.key key = 0) : map key = some u.entry :=
  (h key u.entry).mpr ⟨u, hu, hequal, rfl⟩

theorem Agrees.ne_none_iff (h : Agrees compare l map) :
    map key ≠ none <-> exists u, u ∈ l ∧ compare u.key key = 0 := by
  constructor
  · intro hne
    rcases Option.ne_none_iff_exists'.mp hne with ⟨entry, hentry⟩
    rcases (h key entry).mp hentry with ⟨u, hu, hequal, _⟩
    exact ⟨u, hu, hequal⟩
  · rintro ⟨u, hu, hequal⟩
    rw [h.eq_some hu hequal]
    exact Option.some_ne_none _

theorem Agrees.eq_none (h : Agrees compare l map)
    (habsent : forall u, u ∈ l -> compare u.key key ≠ 0) : map key = none := by
  by_contra hne
  rcases h.ne_none_iff.mp hne with ⟨u, hu, hequal⟩
  exact habsent u hu hequal

theorem Agrees.exchange (hcompare : TotalPreorder compare) {first mid rest : List (Node κ)}
    (h : Agrees compare (first ++ mid ++ rest) map)
    (hothers : forall u, u ∈ first ++ rest -> compare u.key key ≠ 0)
    (hmid : forall u, u ∈ mid -> compare u.key key = 0) (new : Option (Node κ))
    (hnew : forall u, u ∈ new -> compare u.key key = 0) :
    Agrees compare (first ++ new.toList ++ rest)
      (setClass compare key (new.map Node.entry) map) := by
  intro k entry
  by_cases hk : compare k key = 0
  · rw [setClass, if_pos hk]
    constructor
    · intro hentry
      rcases Option.map_eq_some_iff.mp hentry with ⟨u, hu, heq⟩
      have hmem : u ∈ first ++ new.toList ++ rest :=
        List.mem_append_left _ (List.mem_append_right _ (Option.mem_toList.mpr hu))
      exact ⟨u, hmem, hcompare.eq_zero_trans (hnew u hu) (hcompare.eq_zero_symm hk), heq⟩
    · rintro ⟨u, hu, hequal, heq⟩
      have hukey := hcompare.eq_zero_trans hequal hk
      have hnot : u ∉ first ++ rest := fun hmem => hothers u hmem hukey
      simp only [List.mem_append, not_or, Option.mem_toList] at hu hnot
      have hmem : u ∈ new := by tauto
      rw [Option.mem_def.mp hmem, Option.map_some, heq]
  · rw [setClass, if_neg hk, h k entry]
    have hnever : forall u : Node κ, compare u.key key = 0 -> compare u.key k ≠ 0 :=
      fun u hukey huk => hk (hcompare.eq_zero_trans (hcompare.eq_zero_symm huk) hukey)
    constructor
    · rintro ⟨u, hu, hequal, heq⟩
      have hnot : u ∉ mid := fun hmem => hnever u (hmid u hmem) hequal
      refine ⟨u, ?_, hequal, heq⟩
      simp only [List.mem_append] at hu ⊢
      tauto
    · rintro ⟨u, hu, hequal, heq⟩
      have hnot : u ∉ new := fun hmem => hnever u (hnew u hmem) hequal
      refine ⟨u, ?_, hequal, heq⟩
      simp only [List.mem_append, Option.mem_toList] at hu ⊢
      tauto

theorem Ascending.others_ne (hcompare : TotalPreorder compare) {first rest : List (Node κ)}
    (h : Ascending compare (first ++ u :: rest)) (hequal : compare u.key key = 0) :
    forall w, w ∈ first ++ rest -> compare w.key key ≠ 0 := by
  intro w hw
  rcases List.mem_append.mp hw with hw | hw
  · exact Int.ne_of_lt (h.below hcompare (Int.le_of_eq hequal) w hw)
  · exact Int.ne_of_gt (h.above hcompare (Int.le_of_eq hequal.symm) w hw)

theorem Agrees.numberOfClasses (h : Agrees compare l map) (hl : Ascending compare l) :
    NumberOfClasses compare map l.length := by
  refine ⟨l.map Node.key, ?_, fun k => ?_, List.length_map ..⟩
  · rw [List.pairwise_map]
    exact hl.imp fun hlt => Int.ne_of_lt hlt
  · rw [h.ne_none_iff]
    simp only [List.mem_map]
    constructor
    · rintro ⟨u, hu, hequal⟩
      exact ⟨u.key, ⟨u, hu, rfl⟩, hequal⟩
    · rintro ⟨_, ⟨u, hu, rfl⟩, hequal⟩
      exact ⟨u, hu, hequal⟩

/-!
## One call
-/

def Node.place (u : Node κ) : Ptr × κ :=
  (u.addr, u.key)

def Call.Succeeds (tree : RbTree κ) : Call κ -> Prop
  | .insert _ _ malloc => FreshMalloc malloc ∧ malloc tree.nodes.heap ≠ NULL
  | _ => True

def Call.Behaves (flag : Nat) (map : κ -> Option (κ × Nat)) (t t' : ColourTree (Node κ))
    (answer : Answer κ) : Call κ -> Prop
  | .insert key _ _ => exists p, answer = .element p ∧
      (p = NULL <-> map key ≠ none ∧ flag % 2 = rbtree_NO_DUPLICATES) ∧
      (map key ≠ none -> t'.map Node.place = t.map Node.place) ∧ (p = NULL -> t' = t)
  | .delete key _ => answer = .code (if (map key).isSome then 0 else 1) ∧
      (map key = none -> t' = t)
  | .reset => answer = .nothing
  | .search key => answer = .key ((map key).map Prod.fst) ∧ t' = t

variable {flag : Nat} {block p : Ptr} {t t' : ColourTree (Node κ)} {tree tree' : RbTree κ}
  {malloc : Malloc κ} {keySize : Nat}

theorem Inserted.agrees (hcompare : TotalPreorder compare)
    (hinserted : Inserted compare flag block key t p t') (hblock : block ≠ NULL)
    (hascending : Ascending compare t.toList)
    (hcount : forall u, u ∈ t.toList -> 0 < u.count ∧ u.count < 2 ^ 31)
    (h : Agrees compare t.toList map) :
    Agrees compare t'.toList ((Call.insert key keySize malloc).onMap compare flag map) := by
  cases hinserted with
  | failed habsent hfull => exact absurd hfull hblock
  | @refused _ u hu hequal hflag =>
      rw [Call.onMap, h.eq_some hu hequal]
      show Agrees compare t.toList (if _ then _ else _)
      rw [if_pos hflag]
      exact h
  | @counted ctx c a b u hequal hflag =>
      rw [toList_focus] at h hascending hcount ⊢
      have hu : u ∈ before ctx ++ a.toList ++ u :: (b.toList ++ after ctx) :=
        List.mem_append_right _ (List.mem_cons_self ..)
      rw [Call.onMap, h.eq_some hu hequal]
      show Agrees compare _ (if _ then _ else _)
      rw [if_neg hflag, ← countUp_eq (hcount u hu).right]
      have hsplit : before ctx ++ a.toList ++ u :: (b.toList ++ after ctx) =
          before ctx ++ a.toList ++ [u] ++ (b.toList ++ after ctx) := by simp
      have hothers := hascending.others_ne hcompare hequal
      rw [hsplit] at h
      have hexchange := h.exchange hcompare hothers (fun w hw => by
        rw [List.mem_singleton.mp hw]
        exact hequal) (some { u with count := countUp u.count }) (fun w hw => by
        rw [← Option.some.inj hw]
        exact hequal)
      simpa [Node.entry] using hexchange
  | @added _ _ first rest ht ht' hbelow habove hne =>
      rw [ht] at h
      rw [ht']
      have hothers : forall u, u ∈ first ++ rest -> compare u.key key ≠ 0 := by
        intro u hu
        rcases List.mem_append.mp hu with hu | hu
        · exact Int.ne_of_lt (hbelow u hu)
        · exact Int.ne_of_gt (habove u hu)
      rw [Call.onMap, h.eq_none hothers]
      have hsplit : first ++ rest = first ++ [] ++ rest := by simp
      have hmid : forall u : Node κ, u ∈ ([] : List (Node κ)) -> compare u.key key = 0 :=
        fun u hu => by cases hu
      rw [hsplit] at h
      have hexchange := h.exchange hcompare hothers hmid (some ⟨block, key, 1⟩) (fun w hw => by
        rw [← Option.some.inj hw]
        exact hcompare.self key)
      simpa [Node.entry] using hexchange

theorem Deleted.agrees {r : Nat} (hcompare : TotalPreorder compare)
    (hdeleted : Deleted compare true key t r t') (hascending : Ascending compare t.toList)
    (h : Agrees compare t.toList map) :
    Agrees compare t'.toList ((Call.delete key keySize).onMap compare flag map) := by
  rw [Call.onMap]
  cases hdeleted with
  | refused hdelete => cases hdelete
  | missing habsent =>
      have hsplit : t.toList = t.toList ++ [] ++ [] := by simp
      have hmid : forall u : Node κ, u ∈ ([] : List (Node κ)) -> compare u.key key = 0 :=
        fun u hu => by cases hu
      rw [hsplit] at h
      have hexchange := h.exchange hcompare (by simpa using habsent) hmid none
        (fun w hw => by cases hw)
      simpa using hexchange
  | @removed _ first rest u ht ht' hdelete hequal =>
      rw [ht] at h hascending
      rw [ht']
      have hsplit : first ++ u :: rest = first ++ [u] ++ rest := by simp
      rw [hsplit] at h
      have hexchange := h.exchange hcompare (hascending.others_ne hcompare hequal)
        (fun w hw => by
          rw [List.mem_singleton.mp hw]
          exact hequal) none (fun w hw => by cases hw)
      simpa using hexchange

/-- A valid tree that maps as `map` does, set up to free its elements one by one
and without a memory limit. -/
structure Represents (tree : RbTree κ) (t : ColourTree (Node κ)) (map : κ -> Option (κ × Nat)) :
    Prop where
  valid : Valid tree t
  agrees : Agrees tree.compare t.toList map
  memoryLimit_eq : tree.memoryLimit = 0
  isDelete_eq : tree.isDelete = true

theorem Represents.next {answer : Answer κ} {call : Call κ}
    (hcompare : TotalPreorder tree.compare) (h : Represents tree t map)
    (hsucceeds : call.Succeeds tree) (heffect : Effect tree t answer t' call)
    (hvalid : Valid tree' t') (hsettings : SameSettings tree tree') :
    Represents tree' t' (call.onMap tree.compare tree.flag map) where
  valid := hvalid
  memoryLimit_eq := hsettings.memoryLimit_eq.trans h.memoryLimit_eq
  isDelete_eq := hsettings.isDelete_eq.trans h.isDelete_eq
  agrees := by
    rw [hsettings.compare_eq]
    cases call with
    | insert key keySize malloc =>
        rcases heffect with ⟨p, _, hinserted⟩
        have hinserted := hinserted.resolve_right fun hlimit => hlimit.left h.memoryLimit_eq
        exact hinserted.agrees hcompare hsucceeds.right h.valid.ascending h.valid.count h.agrees
    | delete key keySize =>
        rcases heffect with ⟨r, _, hdeleted⟩
        rw [h.isDelete_eq] at hdeleted
        exact hdeleted.agrees hcompare h.valid.ascending h.agrees
    | reset =>
        rcases heffect with ⟨_, rfl⟩
        intro k entry
        constructor
        · intro hentry
          cases hentry
        · rintro ⟨u, hu, _⟩
          cases hu
    | search key =>
        rcases heffect with ⟨_, _, _, rfl⟩
        exact h.agrees

theorem Inserted.behaves (hinserted : Inserted compare flag block key t p t')
    (hblock : block ≠ NULL) (haddrs : NULL ∉ addrs t) (h : Agrees compare t.toList map) :
    (p = NULL <-> map key ≠ none ∧ flag % 2 = rbtree_NO_DUPLICATES) ∧
      (map key ≠ none -> t'.map Node.place = t.map Node.place) ∧ (p = NULL -> t' = t) := by
  cases hinserted with
  | failed habsent hfull => exact absurd hfull hblock
  | refused hu hequal hflag =>
      have hne := h.ne_none_iff.mpr ⟨_, hu, hequal⟩
      exact ⟨⟨fun _ => ⟨hne, hflag⟩, fun _ => rfl⟩, fun _ => rfl, fun _ => rfl⟩
  | @counted ctx c a b u hequal hflag =>
      have hu : u ∈ (plug ctx (.node c a u b)).toList := by
        rw [toList_focus]
        exact List.mem_append_right _ (List.mem_cons_self ..)
      have hne : u.addr ≠ NULL := fun heq =>
        haddrs (heq ▸ List.mem_map_of_mem hu)
      refine ⟨⟨fun heq => absurd heq hne, fun hdup => absurd hdup.right hflag⟩, fun _ => ?_,
        fun heq => absurd heq hne⟩
      exact map_plug_congr ctx rfl
  | @added _ _ first rest ht ht' hbelow habove hne =>
      have hnone : map key = none := by
        refine h.eq_none fun u hu => ?_
        rw [ht] at hu
        rcases List.mem_append.mp hu with hu | hu
        · exact Int.ne_of_lt (hbelow u hu)
        · exact Int.ne_of_gt (habove u hu)
      exact ⟨⟨fun heq => absurd heq hne, fun hdup => absurd hnone hdup.left⟩,
        fun hsome => absurd hnone hsome, fun heq => absurd heq hne⟩

theorem Represents.behaves {answer : Answer κ} {call : Call κ} (h : Represents tree t map)
    (hsucceeds : call.Succeeds tree) (heffect : Effect tree t answer t' call) :
    call.Behaves tree.flag map t t' answer := by
  cases call with
  | insert key keySize malloc =>
      rcases heffect with ⟨p, hp, hinserted⟩
      have hinserted := hinserted.resolve_right fun hlimit => hlimit.left h.memoryLimit_eq
      have haddrs : NULL ∉ addrs t := fun hmem =>
        h.valid.rep.holds.ne_none NULL hmem h.valid.rep.null_none
      exact ⟨p, hp, hinserted.behaves hsucceeds.right haddrs h.agrees⟩
  | delete key keySize =>
      rcases heffect with ⟨r, rfl, hdeleted⟩
      rw [h.isDelete_eq] at hdeleted
      show Answer.code r = _ ∧ _
      cases hdeleted with
      | refused hdelete => cases hdelete
      | missing habsent =>
          rw [h.agrees.eq_none habsent]
          exact ⟨rfl, fun _ => rfl⟩
      | @removed _ first rest u ht ht' hdelete hequal =>
          have hu : u ∈ t.toList := by
            rw [ht]
            exact List.mem_append_right _ (List.mem_cons_self ..)
          rw [h.agrees.eq_some hu hequal]
          exact ⟨rfl, fun hnone => by cases hnone⟩
  | reset => exact heffect.left
  | search key =>
      rcases heffect with ⟨found, rfl, hfound, rfl⟩
      refine ⟨congrArg Answer.key ?_, rfl⟩
      cases found with
      | none => rw [h.agrees.eq_none hfound, Option.map_none]
      | some found =>
          rcases hfound with ⟨u, hu, hequal, rfl⟩
          rw [h.agrees.eq_some hu hequal, Option.map_some]
          rfl

/-!
## Whole runs
-/

variable {settings : Settings κ} {calls : List (Call κ)}

theorem Call.Succeeds.allowed {call : Call κ} (h : call.Succeeds tree) : call.Allowed tree := by
  cases call with
  | insert key keySize malloc => exact h.left
  | delete key keySize => trivial
  | reset => trivial
  | search key => trivial

theorem Run.represents (h : settings.Proper) (hlimit : settings.memoryLimit = 0)
    (hdelete : settings.isDelete = true) (hrun : Run Call.Succeeds settings.start calls tree) :
    SameSettings settings.start tree ∧
      exists t, Represents tree t (mapAfter settings.compare settings.flag calls) := by
  induction hrun with
  | nil =>
      refine ⟨SameSettings.refl _, .nil, h.valid_start, fun k entry => ?_, hlimit, hdelete⟩
      constructor
      · intro hentry
        cases hentry
      · rintro ⟨u, hu, _⟩
        cases hu
  | @snoc calls tree tree' call answer _ hsucceeds hcall ih =>
      rcases ih with ⟨hsettings, t, hrep⟩
      have hcompare : TotalPreorder settings.start.compare := h.compare
      rw [← hsettings.compare_eq] at hcompare
      rcases hrep.valid.step hcompare hsucceeds.allowed with
        ⟨⟨fault, herror⟩, _⟩ | ⟨answer', tree'', t', hcall', hvalid', hsettings', heffect⟩
      · rw [hcall] at herror
        cases herror
      · rw [hcall] at hcall'
        cases hcall'
        have hnext := hrep.next hcompare hsucceeds heffect hvalid' hsettings'
        rw [hsettings.compare_eq, hsettings.flag_eq] at hnext
        rw [mapAfter_snoc]
        exact ⟨hsettings.trans hsettings', t', hnext⟩

/-- The tree refines a map from key classes to the first key inserted and a
count. It counts its elements modulo 2^32, and with less than 2^32 of them every
call returns. -/
theorem rbtree_refines_map (h : settings.Proper) (hlimit : settings.memoryLimit = 0)
    (hdelete : settings.isDelete = true) (hrun : Run Call.Succeeds settings.start calls tree) :
    exists t : ColourTree (Node κ), Rep tree.nodes t ∧
      Agrees settings.compare t.toList (mapAfter settings.compare settings.flag calls) ∧
      NumberOfClasses settings.compare (mapAfter settings.compare settings.flag calls) t.size ∧
      tree.elements = t.size % 2 ^ 32 ∧
      forall call : Call κ, call.Succeeds tree ->
        (t.size < 2 ^ 32 -> exists answer tree', call.apply tree = .ok (answer, tree')) ∧
        forall answer tree', call.apply tree = .ok (answer, tree') ->
          exists t', Rep tree'.nodes t' ∧
            Agrees settings.compare t'.toList (call.onMap settings.compare settings.flag
              (mapAfter settings.compare settings.flag calls)) ∧
            call.Behaves settings.flag (mapAfter settings.compare settings.flag calls) t t'
              answer := by
  rcases hrun.represents h hlimit hdelete with ⟨hsettings, t, hrep⟩
  have hcompare : TotalPreorder settings.start.compare := h.compare
  rw [← hsettings.compare_eq] at hcompare
  have hcompare_eq : tree.compare = settings.compare := hsettings.compare_eq
  have hflag_eq : tree.flag = settings.flag := hsettings.flag_eq
  rw [← hcompare_eq, ← hflag_eq] at hrep ⊢
  have hclasses := hrep.agrees.numberOfClasses hrep.valid.ascending
  rw [ColourTree.length_toList] at hclasses
  refine ⟨t, hrep.valid.rep, hrep.agrees, hclasses, hrep.valid.elements_eq,
    fun call hsucceeds => ?_⟩
  have hstep := hrep.valid.step hcompare hsucceeds.allowed
  constructor
  · intro hsize
    rcases hstep with ⟨_, hhigh⟩ | ⟨answer, tree', t', hcall, _⟩
    · have hheight := hrep.valid.redBlack.height_le hsize
      have hroom : 62 < MAX_rbtree_HEIGHT := by decide
      omega
    · exact ⟨answer, tree', hcall⟩
  · intro answer tree' hcall
    rcases hstep with
      ⟨⟨fault, herror⟩, _⟩ | ⟨answer', tree'', t', hcall', hvalid', hsettings', heffect⟩
    · rw [hcall] at herror
      cases herror
    · rw [hcall] at hcall'
      cases hcall'
      have hnext := hrep.next hcompare hsucceeds heffect hvalid' hsettings'
      have hagrees := hnext.agrees
      rw [hsettings'.compare_eq] at hagrees
      exact ⟨t', hvalid'.rep, hagrees, hrep.behaves hsucceeds heffect⟩

theorem shortRun_succeeds :
    exists tree, Run Call.Succeeds integerSettings.start shortRun tree := by
  have hrun : exists tree, Run Call.Succeeds integerSettings.start
      ((([] ++ [.insert 5 0 (mallocAt 100)]) ++ [.insert 3 0 (mallocAt 101)]) ++
        [.delete 5 0]) tree := by
    refine ⟨_, Run.snoc (Run.snoc (Run.snoc Run.nil ?_ rfl) ?_ rfl) ?_ rfl⟩
    · exact ⟨freshMalloc_mallocAt 100, by decide⟩
    · exact ⟨freshMalloc_mallocAt 101, by decide⟩
    · trivial
  exact hrun

theorem rbtree_refines_map_shortRun :
    exists tree, Run Call.Succeeds integerSettings.start shortRun tree ∧
      exists t : ColourTree (Node Int), Rep tree.nodes t ∧
        Agrees integerSettings.compare t.toList
          (mapAfter integerSettings.compare integerSettings.flag shortRun) ∧
        tree.elements = t.size % 2 ^ 32 := by
  rcases shortRun_succeeds with ⟨tree, hrun⟩
  rcases rbtree_refines_map integerSettings_proper rfl rfl hrun with
    ⟨t, hrep, hagrees, _, helements, _⟩
  exact ⟨tree, hrun, t, hrep, hagrees, helements⟩

/-!
## Counting beyond 2^32
-/

def countingCalls (n : Nat) : List (Call Int) :=
  (List.range n).map fun i => .insert (i : Nat) 0 (mallocAt (64 * (i + 1)))

theorem countingCalls_succ (n : Nat) : countingCalls (n + 1) =
    countingCalls n ++ [.insert n 0 (mallocAt (64 * (n + 1)))] := by
  rw [countingCalls, List.range_succ, List.map_append]
  rfl

structure Counting (n : Nat) (tree : RbTree Int) (t : ColourTree (Node Int)) : Prop where
  valid : Valid tree t
  compare_eq : tree.compare = integerSettings.compare
  nullElement_eq : tree.nodes.nullElement = integerSettings.nullAddress
  size_eq : t.size = n
  below : forall u, u ∈ t.toList -> u.key < n ∧ u.addr <= 64 * n

namespace Counting

variable {n : Nat} {tree tree' : RbTree Int} {t t' : ColourTree (Node Int)}

theorem preorder (h : Counting n tree t) : TotalPreorder tree.compare := by
  rw [h.compare_eq]
  exact integerSettings_proper.compare

theorem place_free (h : Counting n tree t) : tree.nodes.heap (64 * (n + 1)) = none := by
  by_contra hne
  rcases h.valid.owned _ hne with hnull | hmem
  · have hone : 64 * (n + 1) = 1 := hnull.trans h.nullElement_eq
    omega
  · rcases List.mem_map.mp hmem with ⟨u, hu, haddr⟩
    have hle : 64 * (n + 1) <= 64 * n := haddr ▸ (h.below u hu).right
    omega

theorem block_ne (n : Nat) : 64 * (n + 1) ≠ NULL :=
  Nat.mul_ne_zero (by decide) (Nat.succ_ne_zero n)

theorem block_eq (h : Counting n tree t) {heap : Ptr -> Option (Element Int)}
    (hfewer : forall q, tree.nodes.heap q = none -> heap q = none) :
    mallocAt (64 * (n + 1)) heap = 64 * (n + 1) := by
  rw [mallocAt, hfewer _ h.place_free]
  rfl

theorem absent (h : Counting n tree t) :
    forall u, u ∈ t.toList -> tree.compare u.key n ≠ 0 := by
  intro u hu hequal
  have hkey := (h.below u hu).left
  rw [h.compare_eq] at hequal
  have hdiff : u.key - n = 0 := hequal
  omega

theorem next {first rest : List (Node Int)} (h : Counting n tree t) (hvalid : Valid tree' t')
    (hsettings : SameSettings tree tree') (ht : t.toList = first ++ rest)
    (ht' : t'.toList = first ++ ⟨64 * (n + 1), n, 1⟩ :: rest) : Counting (n + 1) tree' t' where
  valid := hvalid
  compare_eq := hsettings.compare_eq.trans h.compare_eq
  nullElement_eq := hsettings.nullElement_eq.trans h.nullElement_eq
  size_eq := by
    have hsize := h.size_eq
    rw [← ColourTree.length_toList, ht, List.length_append] at hsize
    rw [← ColourTree.length_toList, ht', List.length_append, List.length_cons, ← hsize,
      Nat.add_assoc]
  below := by
    intro u hu
    have hold : u ∈ t.toList -> u.key < (n + 1 : Nat) ∧ u.addr <= 64 * (n + 1) := by
      intro hu
      rcases h.below u hu with ⟨hkey, haddr⟩
      exact ⟨by omega, Nat.le_trans haddr (Nat.mul_le_mul_left 64 (Nat.le_succ n))⟩
    rw [ht] at hold
    rw [ht'] at hu
    rcases List.mem_append.mp hu with hu | hu
    · exact hold (List.mem_append_left _ hu)
    rcases List.mem_cons.mp hu with rfl | hu
    · exact ⟨by show (n : Int) < (n + 1 : Nat); omega, Nat.le_refl _⟩
    · exact hold (List.mem_append_right _ hu)

end Counting

/-- All of these calls return as long as the path stack suffices. -/
theorem countingCalls_run (n : Nat) (hn : n <= 2 ^ 32) :
    exists tree t, Run Call.Succeeds integerSettings.start (countingCalls n) tree ∧
      Valid tree t ∧ SameSettings integerSettings.start tree ∧ t.size = n ∧
      forall u, u ∈ t.toList -> u.key < n ∧ u.addr <= 64 * n := by
  induction n with
  | zero =>
      exact ⟨integerSettings.start, .nil, .nil, integerSettings_proper.valid_start,
        SameSettings.refl _, rfl, fun u hu => by cases hu⟩
  | succ n ih =>
      rcases ih (Nat.le_of_succ_le hn) with ⟨tree, t, hrun, hvalid, hsettings, hsize, hbelow⟩
      have hcounting : Counting n tree t :=
        ⟨hvalid, hsettings.compare_eq, hsettings.nullElement_eq, hsize, hbelow⟩
      have hblock := hcounting.block_eq fun _ hq => hq
      have hsucceeds : (Call.insert (n : Int) 0 (mallocAt (64 * (n + 1)))).Succeeds tree := by
        refine ⟨freshMalloc_mallocAt _, ?_⟩
        rw [hblock]
        exact Counting.block_ne n
      have hsmall : t.size < 2 ^ 32 := by omega
      have hheight := hvalid.redBlack.height_le hsmall
      rcases hvalid.step hcounting.preorder hsucceeds.allowed with
        ⟨_, hhigh⟩ | ⟨answer, tree', t', hcall, hvalid', hsettings', p, _, heffect⟩
      · have hroom : 62 < MAX_rbtree_HEIGHT := by decide
        omega
      have hlimit : tree.memoryLimit = 0 := hsettings.memoryLimit_eq
      have hinserted := heffect.resolve_right fun hlimited => hlimited.left hlimit
      rw [hblock] at hinserted
      rcases hinserted.of_absent hcounting.absent with
        ⟨hfull, _⟩ | ⟨_, _, first, rest, ht, ht'⟩
      · exact absurd hfull (Counting.block_ne n)
      have hnext := hcounting.next hvalid' hsettings' ht ht'
      rw [countingCalls_succ]
      exact ⟨tree', t', hrun.snoc hsucceeds hcall, hvalid', hsettings.trans hsettings',
        hnext.size_eq, hnext.below⟩

/-- After 2^32 insertions of different keys a tree counts no element. -/
theorem rbtreeInsert_wraps_elements :
    exists tree, Run Call.Succeeds integerSettings.start (countingCalls (2 ^ 32)) tree ∧
      NumberOfClasses integerSettings.compare
        (mapAfter integerSettings.compare integerSettings.flag (countingCalls (2 ^ 32)))
        (2 ^ 32) ∧
      tree.elements = 0 := by
  rcases countingCalls_run (2 ^ 32) (Nat.le_refl _) with
    ⟨tree, t, hrun, hvalid, hsettings, hsize, _⟩
  rcases hrun.represents integerSettings_proper rfl rfl with ⟨_, t', hrep⟩
  have hclasses := hrep.agrees.numberOfClasses hrep.valid.ascending
  rw [ColourTree.length_toList, hrep.valid.rep.unique hvalid.rep, hsize, hsettings.compare_eq]
    at hclasses
  refine ⟨tree, hrun, hclasses, ?_⟩
  rw [hvalid.elements_eq, hsize]
  rfl

end RBTree
end MyLibs
