import MyLibs.Foundation.TreeDescent
import MyLibs.RBTree.Cursors

/-!
# The neighbours of a key

Which element `rbtree_search_key` finds. A comparison that splits the elements, in
order, into some below a key, some equal to it and some above it sends every
element to one side of the descent; the places noted on the way are the last
steps to the left and to the right.
-/

namespace MyLibs
namespace RBTree

open Foundation

variable {κ : Type} {s : Nodes κ} {ctx : Context (Node κ)} {t : ColourTree (Node κ)}
  {d : Dir} {path : SearchPath} {compare : κ -> Int} {flag : HaReadFunc}
  {below equal above : List (Node κ)} {z : Ptr}

structure Splits (compare : κ -> Int) (l below equal above : List (Node κ)) : Prop where
  eq_append : l = below ++ equal ++ above
  below_lt : forall u, u ∈ below -> compare u.key < 0
  equal_eq : forall u, u ∈ equal -> compare u.key = 0
  above_gt : forall u, u ∈ above -> 0 < compare u.key

def HaReadFunc.neighbour {α : Type} (below equal above : List α) : HaReadFunc -> Option α
  | .HA_READ_KEY_EXACT => equal.head?
  | .HA_READ_KEY_OR_NEXT => (equal ++ above).head?
  | .HA_READ_AFTER_KEY => above.head?
  | .HA_READ_BEFORE_KEY => below.getLast?
  | .HA_READ_PREFIX_LAST => equal.getLast?
  | .HA_READ_PREFIX_LAST_OR_PREV => (below ++ equal).getLast?
  | _ => none

/-- What `rbtree_search_key` leaves when it finds this element: its key is
returned, and the array up to `*last_pos` holds the sentinel and then the elements
from the root down to it. -/
structure Finds (z : Ptr) (t : ColourTree (Node κ)) (wanted : Option (Node κ))
    (found : Option κ × SearchPath) : Prop where
  key_eq : found.1 = wanted.map Node.key
  path : forall w, wanted = some w -> exists i way, found.2.lastPos = some i ∧
    RootPath t (way ++ [w]) ∧
    (List.range (i + 1)).map found.2.parents = z :: (way ++ [w]).map Node.addr

/-!
## The way down
-/

/-- The descent passes the element on its right: it is below, or it is equal and
the mode goes to the right there. -/
def GoesRight (compare : κ -> Int) (d : Dir) (u : Node κ) : Prop :=
  compare u.key < 0 ∨ compare u.key = 0 ∧ d = .right

def HaReadFunc.equalSide (flag : HaReadFunc) : Option Dir :=
  flag.atEqual.map fun step => if step.2 < 0 then .right else .left

def Climbing (compare : κ -> Int) (l : List (Node κ)) : Prop :=
  l.Pairwise fun u v => (0 <= compare u.key -> 0 <= compare v.key) ∧
    (0 < compare u.key -> 0 < compare v.key)

theorem Splits.climbing {l : List (Node κ)} (h : Splits compare l below equal above) :
    Climbing compare l := by
  rw [Climbing, h.eq_append, List.pairwise_append, List.pairwise_append]
  refine ⟨⟨?_, ?_, ?_⟩, ?_, ?_⟩
  · refine List.pairwise_of_forall_mem_list fun u hu v _ => ?_
    have := h.below_lt u hu
    omega
  · refine List.pairwise_of_forall_mem_list fun u hu v hv => ?_
    have := h.equal_eq u hu
    have := h.equal_eq v hv
    omega
  · intro u hu v hv
    have := h.below_lt u hu
    omega
  · refine List.pairwise_of_forall_mem_list fun u _ v hv => ?_
    have := h.above_gt v hv
    omega
  · intro u _ v hv
    have := h.above_gt v hv
    omega

theorem GoesRight.of_climbs {u v : Node κ}
    (h : (0 <= compare u.key -> 0 <= compare v.key) ∧ (0 < compare u.key -> 0 < compare v.key))
    (hv : GoesRight compare d v) : GoesRight compare d u := by
  rw [GoesRight] at hv ⊢
  by_cases hd : d = .right
  · simp only [hd, and_true] at hv ⊢
    omega
  · simp only [hd, and_false, or_false] at hv ⊢
    omega

theorem sideAt_right_iff (hside : flag.equalSide = some d) {u : Node κ} {e : Dir}
    (h : sideAt compare flag u.key = some e) : e = .right <-> GoesRight compare d u := by
  rw [sideAt] at h
  rw [GoesRight]
  split at h
  · rename_i hzero
    rw [HaReadFunc.equalSide] at hside
    rw [hside] at h
    cases h
    simp [hzero]
  · rename_i hne
    simp only [Option.map_some, Option.some.injEq] at h
    subst h
    simp [hne]

theorem Followed.sides (hside : flag.equalSide = some d) (h : Followed compare flag ctx)
    (hclimbing : Climbing compare (plug ctx t).toList) :
    (forall u, u ∈ before ctx -> GoesRight compare d u) ∧
      forall u, u ∈ after ctx -> ¬GoesRight compare d u := by
  induction ctx generalizing t with
  | nil => exact ⟨fun u hu => absurd hu List.not_mem_nil, fun u hu => absurd hu List.not_mem_nil⟩
  | cons f ctx ih =>
      rw [plug_cons] at hclimbing
      have houter := ih (fun g hg => h g (List.mem_cons_of_mem f hg)) hclimbing
      rw [toList_plug] at hclimbing
      have hfill := (List.pairwise_append.mp (List.pairwise_append.mp hclimbing).left).right.left
      have hvalue := sideAt_right_iff hside (h f (List.mem_cons_self ..))
      rcases f with ⟨e, c, v, b⟩
      cases e with
      | left =>
          have hright : ¬GoesRight compare d v := fun hv => by cases hvalue.mpr hv
          have hpairs := (List.pairwise_append.mp hfill).right.left
          refine ⟨fun u hu => ?_, fun u hu => ?_⟩
          · rw [before, Frame.before, List.append_nil] at hu
            exact houter.left u hu
          · rw [after, Frame.after] at hu
            rcases List.mem_append.mp hu with hu | hu
            · rcases List.mem_cons.mp hu with hu | hu
              · exact hu ▸ hright
              · exact fun hgoes => hright
                  (.of_climbs ((List.pairwise_cons.mp hpairs).left u hu) hgoes)
            · exact houter.right u hu
      | right =>
          have hright : GoesRight compare d v := hvalue.mp rfl
          have hpairs := (List.pairwise_append.mp hfill).right.right
          refine ⟨fun u hu => ?_, fun u hu => ?_⟩
          · rw [before, Frame.before] at hu
            rcases List.mem_append.mp hu with hu | hu
            · exact houter.left u hu
            · rcases List.mem_append.mp hu with hu | hu
              · exact .of_climbs (hpairs u hu v (List.mem_cons_self ..)) hright
              · exact List.mem_singleton.mp hu ▸ hright
          · rw [after, Frame.after, List.nil_append] at hu
            exact houter.right u hu

/-- Where a way ends, the elements are split as the mode goes: an equal element is
after the hole if it goes to the left there, and before it if it goes to the right. -/
theorem Followed.split {l : List (Node κ)} (hside : flag.equalSide = some d)
    (h : Followed compare flag ctx) (hplug : (plug ctx .nil).toList = l)
    (hsplits : Splits compare l below equal above) :
    before ctx = (if d = .left then below else below ++ equal) ∧
      after ctx = if d = .left then equal ++ above else above := by
  have hclimbing := hsplits.climbing
  rw [← hplug] at hclimbing
  rcases h.sides hside hclimbing with ⟨hbefore, hafter⟩
  rw [toList_plug, ColourTree.toList, List.append_nil] at hplug
  rw [← hplug] at hsplits
  have hbelow : forall u, u ∈ below -> GoesRight compare d u :=
    fun u hu => Or.inl (hsplits.below_lt u hu)
  have habove : forall u, u ∈ above -> ¬GoesRight compare d u := by
    intro u hu hgoes
    have hgt := hsplits.above_gt u hu
    rw [GoesRight] at hgoes
    omega
  cases d with
  | left =>
      refine split_unique (hsplits.eq_append.trans (List.append_assoc ..)) hbefore hafter hbelow ?_
      intro u hu
      rcases List.mem_append.mp hu with hu | hu
      · have hzero := hsplits.equal_eq u hu
        simp [GoesRight, hzero]
      · exact habove u hu
  | right =>
      refine split_unique hsplits.eq_append hbefore hafter ?_ habove
      intro u hu
      rcases List.mem_append.mp hu with hu | hu
      · exact hbelow u hu
      · exact Or.inr ⟨hsplits.equal_eq u hu, rfl⟩

theorem Followed.split_left {l : List (Node κ)} (hside : flag.equalSide = some .left)
    (h : Followed compare flag ctx) (hplug : (plug ctx .nil).toList = l)
    (hsplits : Splits compare l below equal above) :
    before ctx = below ∧ after ctx = equal ++ above := by
  have hsplit := h.split hside hplug hsplits
  rw [if_pos rfl, if_pos rfl] at hsplit
  exact hsplit

theorem Followed.split_right {l : List (Node κ)} (hside : flag.equalSide = some .right)
    (h : Followed compare flag ctx) (hplug : (plug ctx .nil).toList = l)
    (hsplits : Splits compare l below equal above) :
    before ctx = below ++ equal ∧ after ctx = above := by
  have hsplit := h.split hside hplug hsplits
  rw [if_neg (by decide), if_neg (by decide)] at hsplit
  exact hsplit

/-!
## The places noted
-/

theorem sideAt_zero {key : κ} (hzero : compare key = 0) :
    sideAt compare flag key = flag.equalSide := by
  rw [sideAt, if_pos hzero, HaReadFunc.equalSide]

theorem Climbing.beyond {u w : Node κ} (h : Climbing compare (plug ctx t).toList)
    (hw : lastStep d ctx = some w) (hzero : compare w.key = 0) (hu : u ∈ t.toList) :
    (d = .left -> compare u.key <= 0) ∧ (d = .right -> 0 <= compare u.key) := by
  rw [Climbing, toList_plug, List.pairwise_append] at h
  constructor
  · rintro rfl
    rw [lastStep_left] at hw
    have hpair := h.right.right u (List.mem_append_right _ hu) w (List.mem_of_mem_head? hw)
    omega
  · rintro rfl
    rw [lastStep_right] at hw
    have hpair := (List.pairwise_append.mp h.left).right.right w (List.mem_of_getLast? hw) u hu
    omega

/-- A mode that notes equal elements has noted the last step to its side if that
was at an equal element, and otherwise none. -/
theorem Followed.depthOf_noted (hside : flag.equalSide = some d)
    (hnotes : flag.atEqual.map Prod.fst = some true) (h : Followed compare flag ctx)
    (hclimbing : Climbing compare (plug ctx t).toList) :
    (exists w, lastStep d ctx = some w ∧ compare w.key = 0 ∧
        depthOf (Noted compare flag) ctx = lastStepDepth d ctx) ∨
      (forall w, lastStep d ctx = some w -> compare w.key ≠ 0) ∧
        depthOf (Noted compare flag) ctx = none := by
  induction ctx generalizing t with
  | nil => exact Or.inr ⟨fun w hw => absurd hw (Option.some_ne_none w).symm, rfl⟩
  | cons f ctx ih =>
      rw [plug_cons] at hclimbing
      have houter := ih (fun g hg => h g (List.mem_cons_of_mem f hg)) hclimbing
      have hstep := h f (List.mem_cons_self ..)
      have hmem : f.value ∈ (f.fill t).toList := by
        rcases f with ⟨_ | _, c, v, b⟩ <;> simp [Frame.fill, ColourTree.mk, ColourTree.toList]
      rw [lastStep, valueOf, lastStepDepth, depthOf, depthOf]
      by_cases hdir : f.dir = d
      · rw [if_pos hdir, if_pos hdir]
        by_cases hzero : compare f.value.key = 0
        · rw [if_pos (show Noted compare flag f from ⟨hzero, hnotes⟩)]
          exact Or.inl ⟨f.value, rfl, hzero, rfl⟩
        · rw [if_neg (show ¬Noted compare flag f from fun hnoted => hzero hnoted.left)]
          refine Or.inr ⟨fun w hw => ?_, ?_⟩
          · cases hw
            exact hzero
          · rcases houter with ⟨w, hw, hequal, _⟩ | ⟨_, hnone⟩
            · -- the step at `w` led away from all elements that are not equal
              have hbeyond := hclimbing.beyond hw hequal hmem
              have hside := sideAt_right_iff hside hstep
              rw [hdir, GoesRight] at hside
              cases d with
              | left =>
                  have := hbeyond.left rfl
                  simp only [reduceCtorEq, and_false, or_false, false_iff] at hside
                  omega
              | right =>
                  have := hbeyond.right rfl
                  simp only [and_true, true_iff] at hside
                  omega
            · exact hnone
      · rw [if_neg hdir, if_neg hdir]
        have hne : compare f.value.key ≠ 0 := by
          intro hzero
          rw [sideAt_zero hzero, hside] at hstep
          exact hdir (Option.some.inj hstep).symm
        rw [if_neg (show ¬Noted compare flag f from fun hnoted => hne hnoted.left)]
        exact houter

def Points (ctx : Context (Node κ)) (place : Option Nat) (wanted : Option (Node κ)) : Prop :=
  place = none ∧ wanted = none ∨
    exists e, place = lastStepDepth e ctx ∧ wanted = lastStep e ctx

theorem points_left {l : List (Node κ)} (hafter : after ctx = l) :
    Points ctx (lastStepDepth .left ctx) l.head? :=
  Or.inr ⟨.left, rfl, by rw [lastStep_left, hafter]⟩

theorem points_right {l : List (Node κ)} (hbefore : before ctx = l) :
    Points ctx (lastStepDepth .right ctx) l.getLast? :=
  Or.inr ⟨.right, rfl, by rw [lastStep_right, hbefore]⟩

theorem equal_left {l : List (Node κ)} (hside : flag.equalSide = some .left)
    (hnotes : flag.atEqual.map Prod.fst = some true) (h : Followed compare flag ctx)
    (hplug : (plug ctx .nil).toList = l) (hsplits : Splits compare l below equal above) :
    (equal = [] ∧ depthOf (Noted compare flag) ctx = none) ∨
      (equal ++ above).head? = equal.head? ∧
        depthOf (Noted compare flag) ctx = lastStepDepth .left ctx := by
  have hclimbing := hsplits.climbing
  rw [← hplug] at hclimbing
  have hafter := (h.split_left hside hplug hsplits).right
  rcases h.depthOf_noted hside hnotes hclimbing with ⟨w, hw, hzero, hdepth⟩ | ⟨hne, hnone⟩
  · refine Or.inr ⟨?_, hdepth⟩
    rw [lastStep_left, hafter] at hw
    cases equal with
    | nil =>
        have hgt := hsplits.above_gt w (List.mem_of_mem_head? hw)
        omega
    | cons v equal => rfl
  · refine Or.inl ⟨?_, hnone⟩
    cases equal with
    | nil => rfl
    | cons v equal =>
        refine absurd (hsplits.equal_eq v (List.mem_cons_self ..)) (hne v ?_)
        rw [lastStep_left, hafter]
        rfl

theorem equal_right {l : List (Node κ)} (hside : flag.equalSide = some .right)
    (hnotes : flag.atEqual.map Prod.fst = some true) (h : Followed compare flag ctx)
    (hplug : (plug ctx .nil).toList = l) (hsplits : Splits compare l below equal above) :
    (equal = [] ∧ depthOf (Noted compare flag) ctx = none) ∨
      (below ++ equal).getLast? = equal.getLast? ∧
        depthOf (Noted compare flag) ctx = lastStepDepth .right ctx := by
  have hclimbing := hsplits.climbing
  rw [← hplug] at hclimbing
  have hbefore := (h.split_right hside hplug hsplits).left
  rcases h.depthOf_noted hside hnotes hclimbing with ⟨w, hw, hzero, hdepth⟩ | ⟨hne, hnone⟩
  · refine Or.inr ⟨?_, hdepth⟩
    rw [lastStep_right, hbefore] at hw
    rcases List.eq_nil_or_concat equal with hempty | ⟨front, v, hlast⟩
    · rw [hempty, List.append_nil] at hw
      have hlt := hsplits.below_lt w (List.mem_of_getLast? hw)
      omega
    · rw [hlast, List.concat_eq_append, ← List.append_assoc, List.getLast?_concat,
        List.getLast?_concat]
  · refine Or.inl ⟨?_, hnone⟩
    rcases List.eq_nil_or_concat equal with hempty | ⟨front, v, hlast⟩
    · exact hempty
    · rw [List.concat_eq_append] at hlast
      refine absurd (hsplits.equal_eq v (by simp [hlast])) (hne v ?_)
      rw [lastStep_right, hbefore, hlast, ← List.append_assoc, List.getLast?_concat]

theorem lastPos_points {l : List (Node κ)} (h : Followed compare flag ctx)
    (hflag : flag.atEqual ≠ none) (hplug : (plug ctx .nil).toList = l)
    (hsplits : Splits compare l below equal above) :
    exists place, flag.lastPos (placesAt compare flag ctx) = some place ∧
      Points ctx place (flag.neighbour below equal above) := by
  cases flag with
  | HA_READ_KEY_EXACT =>
      refine ⟨_, rfl, ?_⟩
      rcases equal_left rfl rfl h hplug hsplits with ⟨hempty, hnone⟩ | ⟨hhead, hdepth⟩
      · exact Or.inl ⟨hnone, by rw [hempty]; rfl⟩
      · have hpoints := points_left (h.split_left rfl hplug hsplits).right
        rw [hhead] at hpoints
        rw [placesAt, hdepth]
        exact hpoints
  | HA_READ_KEY_OR_NEXT =>
      refine ⟨_, rfl, ?_⟩
      have hpoints := points_left (h.split_left rfl hplug hsplits).right
      rcases equal_left rfl rfl h hplug hsplits with ⟨_, hnone⟩ | ⟨_, hdepth⟩
      · simp only [placesAt, hnone]
        exact hpoints
      · simp only [placesAt, hdepth, Option.orElse_eq_orElse, Option.orElse_eq_or,
          Option.or_self]
        exact hpoints
  | HA_READ_AFTER_KEY =>
      exact ⟨_, rfl, points_left (h.split_right rfl hplug hsplits).right⟩
  | HA_READ_BEFORE_KEY =>
      exact ⟨_, rfl, points_right (h.split_left rfl hplug hsplits).left⟩
  | HA_READ_PREFIX_LAST =>
      refine ⟨_, rfl, ?_⟩
      rcases equal_right rfl rfl h hplug hsplits with ⟨hempty, hnone⟩ | ⟨hlast, hdepth⟩
      · exact Or.inl ⟨hnone, by rw [hempty]; rfl⟩
      · have hpoints := points_right (h.split_right rfl hplug hsplits).left
        rw [hlast] at hpoints
        rw [placesAt, hdepth]
        exact hpoints
  | HA_READ_PREFIX_LAST_OR_PREV =>
      refine ⟨_, rfl, ?_⟩
      have hpoints := points_right (h.split_right rfl hplug hsplits).left
      rcases equal_right rfl rfl h hplug hsplits with ⟨_, hnone⟩ | ⟨_, hdepth⟩
      · simp only [placesAt, hnone]
        exact hpoints
      · simp only [placesAt, hdepth, Option.orElse_eq_orElse, Option.orElse_eq_or,
          Option.or_self]
        exact hpoints
  | _ => exact absurd rfl hflag

/-- A mode that is not supported finds nothing. -/
theorem lastPos_unsupported (hflag : flag.atEqual = none) (last : LastPlaces)
    (below equal above : List (Node κ)) :
    flag.lastPos last = none ∧ flag.neighbour below equal above = none := by
  cases flag <;> first | exact ⟨rfl, rfl⟩ | cases hflag

/-!
## The path
-/

theorem PathFor.outer {parents : Nat -> Ptr} {inner outer : Context (Node κ)}
    (h : PathFor z parents (inner ++ outer)) : PathFor z parents outer := by
  induction inner with
  | nil => exact h
  | cons f inner ih => exact ih h.right

theorem PathFor.parents_eq {parents : Nat -> Ptr} (h : PathFor z parents ctx) :
    (List.range (ctx.length + 1)).map parents =
      z :: (ctx.reverse.map Frame.value).map Node.addr := by
  induction ctx with
  | nil => exact congrArg (fun p => [p]) h
  | cons f ctx ih =>
      rw [List.range_succ, List.map_append, List.length_cons, ih h.right]
      simp [h.left]

theorem finds_place {path' : SearchPath} (h : Rep s (plug ctx .nil))
    (hroom : (plug ctx .nil).height < path'.places)
    (hend : PathFor s.nullElement path'.parents ctx) (e : Dir) :
    (lastStepDepth e ctx = none ∧ lastStep e ctx = none) ∨
      exists i w, lastStepDepth e ctx = some i ∧ lastStep e ctx = some w ∧
        path'.parentAt i = .ok w.addr ∧ s.elementKey w.addr = .ok w.key ∧
        Finds s.nullElement (plug ctx .nil) (some w)
          (some w.key, { path' with lastPos := some i }) := by
  rcases depthOf_cases (fun f => f.dir = e) ctx with
    ⟨hvalue, hdepth⟩ | ⟨inner, f, outer, hctx, hf, hvalue, hdepth⟩
  · exact Or.inl ⟨hdepth, hvalue⟩
  · have hplace : outer.length + 1 < path'.places := by
      have hlt := path_lt ctx .nil hroom
      rw [hctx, List.length_append, List.length_cons] at hlt
      omega
    subst hctx
    have hpath := hend.outer
    rw [plug_append] at h
    refine Or.inr ⟨outer.length + 1, f.value, hdepth, hvalue, ?_, elementKey_frame h, rfl, ?_⟩
    · rw [parentAt_path hplace, hpath.left]
    · intro w hw
      cases hw
      refine ⟨outer.length + 1, outer.reverse.map Frame.value, rfl, ?_, ?_⟩
      · rw [plug_append]
        exact rootPath_frame f.dir f.colour f.value f.sibling outer (plug inner .nil)
      · have hparents := hpath.parents_eq
        rw [List.reverse_cons, List.map_append] at hparents
        exact hparents

theorem searchKey_finds {tree : RbTree κ} (flag : HaReadFunc) (h : Rep tree.nodes t)
    (hroom : t.height < path.places) (hsplits : Splits compare t.toList below equal above) :
    exists found, searchKey tree compare path flag = .ok found ∧
      Finds tree.nodes.nullElement t (flag.neighbour below equal above) found := by
  rcases searchKey_way compare flag h hroom with
    ⟨path', hplaces, ⟨hsearch, hflag⟩ | ⟨ctx, hplug, hend, hfollowed, hsearch⟩⟩
  · refine ⟨_, hsearch, ?_⟩
    rw [(lastPos_unsupported hflag ⟨none, none, none⟩ below equal above).right]
    exact ⟨rfl, fun w hw => by cases hw⟩
  · subst hplug
    rw [← hplaces] at hroom
    rw [hsearch, searchKeyEnd]
    by_cases hflag : flag.atEqual = none
    · rcases lastPos_unsupported hflag (placesAt compare flag ctx) below equal above with
        ⟨hlast, hwanted⟩
      rw [hlast, hwanted]
      exact ⟨_, rfl, rfl, fun w hw => by cases hw⟩
    · rcases lastPos_points hfollowed hflag rfl hsplits with ⟨place, hlast, hpoints⟩
      rw [hlast]
      rcases hpoints with ⟨hplace, hwanted⟩ | ⟨e, hplace, hwanted⟩
      · rw [hplace, hwanted]
        exact ⟨_, rfl, rfl, fun w hw => by cases hw⟩
      · rw [hplace, hwanted]
        rcases finds_place h hroom hend e with
          ⟨hdepth, hvalue⟩ | ⟨i, w, hdepth, hvalue, hparent, hkey, hfinds⟩
        · rw [hdepth, hvalue]
          exact ⟨_, rfl, rfl, fun w hw => by cases hw⟩
        · rw [hdepth, hvalue]
          simp only [bind, Except.bind, hparent, hkey]
          exact ⟨_, rfl, hfinds⟩

variable {settings : Settings κ} {calls : List (Call κ)} {tree : RbTree κ}

/-- In every reachable tree, and for every comparison that splits its elements,
`rbtree_search_key` finds the neighbour each mode asks for, with its path. -/
theorem search_key_finds_neighbour (h : settings.Proper)
    (hrun : Run Call.Allowed settings.start calls tree) :
    exists t : ColourTree (Node κ), Rep tree.nodes t ∧
      forall (compare : κ -> Int) (below equal above : List (Node κ)) (path : SearchPath)
        (flag : HaReadFunc), Splits compare t.toList below equal above ->
          t.height < path.places ->
          exists found, searchKey tree compare path flag = .ok found ∧
            Finds settings.nullAddress t (flag.neighbour below equal above) found := by
  rcases hrun.valid h with ⟨hsettings, t, hvalid⟩
  have hnull : tree.nodes.nullElement = settings.nullAddress := hsettings.nullElement_eq
  refine ⟨t, hvalid.rep, fun compare below equal above path flag hsplits hroom => ?_⟩
  rw [← hnull]
  exact searchKey_finds flag hvalid.rep hroom hsplits

theorem search_key_finds_neighbour_prefix : exists tree,
    Run Call.Allowed integerSettings.start shortRun tree ∧
      exists t : ColourTree (Node Int), Rep tree.nodes t ∧
        exists found, searchKey tree (fun _ => 0) ⟨t.height + 1, fun _ => NULL, none⟩
            .HA_READ_PREFIX_LAST = .ok found ∧
          Finds integerSettings.nullAddress t t.toList.getLast? found := by
  rcases shortRun_run with ⟨tree, hrun⟩
  rcases search_key_finds_neighbour integerSettings_proper hrun with ⟨t, hrep, hsearch⟩
  refine ⟨tree, hrun, t, hrep, hsearch (fun _ => 0) [] t.toList [] _ .HA_READ_PREFIX_LAST ?_
    (Nat.lt_succ_self _)⟩
  exact ⟨by simp, by simp, by simp, by simp⟩

end RBTree
end MyLibs
