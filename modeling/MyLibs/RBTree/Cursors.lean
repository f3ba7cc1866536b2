import MyLibs.Foundation.TreeDescent
import MyLibs.RBTree.Runs
import MyLibs.RBTree.Walks

/-!
# Cursors

A cursor is a path in the caller's array: the sentinel, then the elements from
the root down to the one where it stands. What it still has to visit is what is
ahead of that element.
-/

namespace MyLibs
namespace RBTree

open Foundation

variable {κ τ : Type} {s : Nodes κ} {ctx first : Context (Node κ)} {t whole : ColourTree (Node κ)}
  {d : Dir} {path : SearchPath} {z : Ptr}

/-- The array leads from the sentinel to the hole of a context. -/
def PathFor (z : Ptr) (parents : Nat -> Ptr) : Context (Node κ) -> Prop
  | [] => parents 0 = z
  | f :: ctx => parents (ctx.length + 1) = f.value.addr ∧ PathFor z parents ctx

theorem PathFor.update {parents : Nat -> Ptr} (h : PathFor z parents ctx) {i : Nat}
    (hi : ctx.length < i) (p : Ptr) : PathFor z (Function.update parents i p) ctx := by
  induction ctx with
  | nil =>
      have hne : 0 ≠ i := Nat.ne_of_lt hi
      show Function.update parents i p 0 = z
      rw [Function.update_of_ne hne]
      exact h
  | cons f ctx ih =>
      rw [List.length_cons] at hi
      constructor
      · rw [Function.update_of_ne (Nat.ne_of_lt hi)]
        exact h.left
      · exact ih h.right (Nat.lt_of_succ_lt hi)

theorem path_lt (ctx : Context (Node κ)) (t : ColourTree (Node κ)) {n : Nat}
    (h : (plug ctx t).height < n) : ctx.length < n := by
  have hheight := length_add_height_le ctx t
  omega

def SearchPath.put (path : SearchPath) (i : Nat) (p : Ptr) : SearchPath :=
  { path with parents := Function.update path.parents i p }

@[simp]
theorem SearchPath.put_places (path : SearchPath) (i : Nat) (p : Ptr) :
    (path.put i p).places = path.places :=
  rfl

theorem setParent_path {i : Nat} (hi : i < path.places) (p : Ptr) :
    path.setParent i p = .ok (path.put i p) :=
  if_pos hi

theorem PathFor.push (h : PathFor z path.parents ctx) (f : Frame (Node κ)) :
    PathFor z (path.put (ctx.length + 1) f.value.addr).parents (f :: ctx) :=
  ⟨Function.update_self .., h.update (Nat.lt_succ_self _) _⟩

theorem parentAt_path {i : Nat} (hi : i < path.places) :
    path.parentAt i = .ok (path.parents i) :=
  if_pos hi

theorem exists_start (hplace : 0 < path.places) (z : Ptr) :
    exists start, path.setParent 0 z = .ok start ∧ start.places = path.places ∧
      PathFor z start.parents ([] : Context (Node κ)) := by
  refine ⟨path.put 0 z, setParent_path hplace z, rfl, ?_⟩
  show Function.update path.parents 0 z 0 = z
  rw [Function.update_self]

/-!
## Where a cursor stands
-/

structure At (z : Ptr) (whole : ColourTree (Node κ)) (d : Dir) (path : SearchPath) (w : Node κ)
    (rest : List (Node κ)) : Prop where
  exists_frame : exists c b ctx a, plug (⟨d, c, w, b⟩ :: ctx) a = whole ∧
    PathFor z path.parents (⟨d, c, w, b⟩ :: ctx) ∧ path.lastPos = some (ctx.length + 1) ∧
    rest = b.ordered d ++ ahead d ctx

def Comes (z : Ptr) (whole : ColourTree (Node κ)) (d : Dir) :
    List (Node κ) -> Option κ × SearchPath -> Prop
  | [], found => found.1 = none
  | w :: rest, found => found.1 = some w.key ∧ At z whole d found.2 w rest

theorem elementKey_frame {c : Colour} {w : Node κ} {b a : ColourTree (Node κ)}
    (h : Rep s (plug (⟨d, c, w, b⟩ :: ctx) a)) : s.elementKey w.addr = .ok w.key :=
  elementKey_eq h

theorem Rep.frame_ne_null {c : Colour} {w : Node κ} {b a : ColourTree (Node κ)}
    (h : Rep s (plug (⟨d, c, w, b⟩ :: ctx) a)) : w.addr ≠ s.nullElement := by
  have hrep : Rep s (plug ctx (.mk d c a w b)) := h
  exact hrep.null_ne (mem_addrs_mk.mpr (Or.inl rfl))

theorem element_frame {c : Colour} {w : Node κ} {b a : ColourTree (Node κ)}
    (h : Rep s (plug (⟨d, c, w, b⟩ :: ctx) a)) : s.element w.addr =
      .ok (mkElement d (addrOf s.nullElement a) (addrOf s.nullElement b) c w) :=
  Rep.element h

theorem comes_of_path (h : Rep s (plug ctx t)) (hpath : PathFor s.nullElement path.parents ctx)
    (hshape : ctx = [] ∨ exists c w b outer, ctx = ⟨d, c, w, b⟩ :: outer) :
    exists key, keyOrNull s (path.parents ctx.length) = .ok key ∧
      Comes s.nullElement (plug ctx t) d (ahead d ctx)
        (key, { path with lastPos := some ctx.length }) := by
  rcases hshape with hnil | ⟨c, w, b, outer, hcons⟩
  · subst hnil
    refine ⟨none, if_pos hpath, ?_⟩
    rw [ahead_nil]
    rfl
  · subst hcons
    have hne : w.addr ≠ s.nullElement := h.frame_ne_null
    refine ⟨some w.key, ?_, ?_⟩
    · rw [List.length_cons, hpath.left]
      show keyOrNull s w.addr = _
      rw [keyOrNull, if_neg hne, elementKey_frame h]
      rfl
    · rw [ahead_cons_near]
      exact ⟨rfl, c, b, outer, t, rfl, hpath, rfl, rfl⟩

/-!
## The first element
-/

theorem edgeLoop_spec {fuel : Nat} (h : Rep s (plug ctx t))
    (hpath : PathFor s.nullElement path.parents ctx)
    (hroom : (plug ctx t).height < path.places) (hfuel : t.height < fuel) :
    exists path' ctx', edgeLoop s d fuel path ctx.length (addrOf s.nullElement t) =
        .ok (path', ctx'.length) ∧
      path'.places = path.places ∧ plug ctx' .nil = plug ctx t ∧
      PathFor s.nullElement path'.parents ctx' ∧ ahead d ctx' = t.ordered d ++ ahead d ctx ∧
      (ctx' = ctx ∨ exists c w b outer, ctx' = ⟨d, c, w, b⟩ :: outer) := by
  induction fuel generalizing ctx t path with
  | zero => cases hfuel
  | succ fuel ih =>
      rw [edgeLoop]
      by_cases hnil : t = .nil
      · subst hnil
        rw [addrOf, if_pos rfl]
        exact ⟨path, ctx, rfl, rfl, rfl, hpath, by rw [ColourTree.ordered_nil, List.nil_append],
          Or.inl rfl⟩
      · have hne : addrOf s.nullElement t ≠ s.nullElement := by
          rw [ne_eq, h.addrOf_eq_null_iff]
          exact hnil
        rcases ColourTree.exists_mk d hnil with ⟨c, a, v, b, rfl⟩
        have hplace : ctx.length + 1 < path.places :=
          path_lt (⟨d, c, v, b⟩ :: ctx) a hroom
        have helement := h.element
        have hchild : Rep s (plug (⟨d, c, v, b⟩ :: ctx) a) := h
        have hfuel' : a.height < fuel :=
          Nat.lt_of_lt_of_le (Frame.height_lt ⟨d, c, v, b⟩ a) (Nat.le_of_lt_succ hfuel)
        rcases ih hchild (hpath.push ⟨d, c, v, b⟩) hroom hfuel' with
          ⟨path', ctx', hloop, hplaces, hplug, hend, hahead, hshape⟩
        refine ⟨path', ctx', ?_, hplaces, hplug, hend, ?_, Or.inr ?_⟩
        · rw [if_neg hne]
          simp only [addrOf_mk, setParent_path hplace, bind, Except.bind, helement,
            mkElement_child]
          exact hloop
        · rw [hahead, ahead_cons_near, ColourTree.ordered_mk, List.append_assoc]
        · rcases hshape with rfl | hshape
          · exact ⟨c, v, b, ctx, rfl⟩
          · exact hshape

theorem rbtreeSearchEdge_spec {tree : RbTree κ} (d : Dir) (h : Rep tree.nodes t)
    (hroom : t.height < path.places) :
    exists found, rbtreeSearchEdge tree path d = .ok found ∧
      found.2.places = path.places ∧
      Comes tree.nodes.nullElement t d (t.ordered d) found := by
  have hplace : 0 < path.places := Nat.zero_lt_of_lt hroom
  have hrep : Rep tree.nodes (plug [] t) := h
  rcases exists_start (κ := κ) hplace tree.nodes.nullElement with
    ⟨start, hstart, hplaces, hpath⟩
  rw [← hplaces] at hroom
  have hfuel : t.height < start.places + 1 := Nat.lt_succ_of_lt hroom
  rcases edgeLoop_spec (d := d) hrep hpath hroom hfuel with
    ⟨path', ctx, hloop, hplaces', hplug, hend, hahead, hshape⟩
  rw [plug_nil] at hplug
  rw [ahead_nil, List.append_nil] at hahead
  subst hplug
  have hlast : ctx.length < path'.places := by
    rw [hplaces']
    exact path_lt _ _ hroom
  rcases comes_of_path h hend hshape with ⟨key, hkey, hcomes⟩
  rw [hahead] at hcomes
  refine ⟨_, ?_, hplaces'.trans hplaces, hcomes⟩
  rw [List.length_nil] at hloop
  rw [rbtreeSearchEdge]
  simp only [hstart, bind, Except.bind, h.root_eq, hloop, parentAt_path hlast, hkey]

/-!
## The next element
-/

theorem nextLoop_spec {fuel : Nat} {c : Colour} {v : Node κ} {a b : ColourTree (Node κ)}
    (h : Rep s (plug (⟨d, c, v, b⟩ :: ctx) a))
    (hpath : PathFor s.nullElement path.parents (⟨d, c, v, b⟩ :: ctx))
    (hroom : (plug (⟨d, c, v, b⟩ :: ctx) a).height < path.places) (hfuel : a.height < fuel) :
    exists path' c' w e ctx', nextLoop s d fuel path (ctx.length + 1) v.addr =
        .ok (path', ctx'.length + 1, w.addr) ∧
      path'.places = path.places ∧
      plug (⟨d, c', w, e⟩ :: ctx') .nil = plug (⟨d, c, v, b⟩ :: ctx) a ∧
      PathFor s.nullElement path'.parents (⟨d, c', w, e⟩ :: ctx') ∧
      ahead d (⟨d, c', w, e⟩ :: ctx') = a.ordered d ++ ahead d (⟨d, c, v, b⟩ :: ctx) := by
  induction fuel generalizing ctx c v a b path with
  | zero => cases hfuel
  | succ fuel ih =>
      have hnode := element_frame h
      rw [nextLoop, hnode]
      simp only [bind, Except.bind, mkElement_child]
      by_cases hnil : a = .nil
      · subst hnil
        rw [addrOf, if_pos rfl, ColourTree.ordered_nil, List.nil_append]
        exact ⟨path, c, v, b, ctx, rfl, rfl, rfl, hpath, rfl⟩
      · have hne : addrOf s.nullElement a ≠ s.nullElement := by
          rw [ne_eq, h.addrOf_eq_null_iff]
          exact hnil
        rcases ColourTree.exists_mk d hnil with ⟨c', a', v', b', rfl⟩
        have hplace : ctx.length + 1 + 1 < path.places :=
          path_lt (⟨d, c', v', b'⟩ :: ⟨d, c, v, b⟩ :: ctx) a' hroom
        have hchild : Rep s (plug (⟨d, c', v', b'⟩ :: ⟨d, c, v, b⟩ :: ctx) a') := h
        have hfuel' : a'.height < fuel :=
          Nat.lt_of_lt_of_le (Frame.height_lt ⟨d, c', v', b'⟩ a') (Nat.le_of_lt_succ hfuel)
        rcases ih hchild (hpath.push ⟨d, c', v', b'⟩) hroom hfuel' with
          ⟨path', c'', w, e, ctx', hloop, hplaces, hplug, hend, hahead⟩
        refine ⟨path', c'', w, e, ctx', ?_, hplaces, hplug, hend, ?_⟩
        · rw [if_neg hne, addrOf_mk, setParent_path hplace]
          exact hloop
        · rw [hahead, ahead_cons_near d c' v', ColourTree.ordered_mk, List.append_assoc]

theorem Rep.sibling_ne {c : Colour} {v : Node κ} {b : ColourTree (Node κ)}
    (h : Rep s (plug (⟨d, c, v, b⟩ :: ctx) t)) (ht : t ≠ .nil) :
    addrOf s.nullElement t ≠ addrOf s.nullElement b := by
  have hmem := addrOf_mem ht s.nullElement
  have hrep : Rep s (plug ctx (.mk d c t v b)) := h
  have hapart := (nodup_mk.mp (nodup_plug.mp hrep.nodup).left).right.right.right
  intro heq
  by_cases hb : b = .nil
  · subst hb
    exact h.null_ne hmem heq
  · refine hapart _ hmem ?_
    rw [heq]
    exact addrOf_mem hb s.nullElement

theorem climb_spec (h : Rep s (plug ctx t)) (ht : t ≠ .nil)
    (hpath : PathFor s.nullElement path.parents ctx)
    (hroom : (plug ctx t).height < path.places) :
    exists ctx' t', climb s d.other path (ctx.length + 1) (addrOf s.nullElement t) =
        .ok (ctx'.length, path.parents ctx'.length) ∧
      plug ctx' t' = plug ctx t ∧ PathFor s.nullElement path.parents ctx' ∧
      ahead d ctx' = ahead d ctx ∧
      (ctx' = [] ∨ exists c w b outer, ctx' = ⟨d, c, w, b⟩ :: outer) := by
  induction ctx generalizing t with
  | nil =>
      have hnull : path.parents 0 = s.nullElement := hpath
      refine ⟨[], t, ?_, rfl, hpath, rfl, Or.inl rfl⟩
      rw [List.length_nil, climb, parentAt_path (Nat.zero_lt_of_lt hroom)]
      exact if_pos hnull
  | cons f ctx ih =>
      rcases f with ⟨e, c, v, b⟩
      have hparent := parentAt_path (path_lt (⟨e, c, v, b⟩ :: ctx) t hroom)
      have hne : path.parents (ctx.length + 1) ≠ s.nullElement := by
        rw [hpath.left]
        exact h.frame_ne_null
      have helement := element_frame h
      rw [List.length_cons] at hparent
      rw [List.length_cons, climb, hparent]
      simp only [bind, Except.bind, if_neg hne]
      rw [hpath.left, helement]
      by_cases hdir : e = d
      · subst hdir
        refine ⟨⟨e, c, v, b⟩ :: ctx, t, ?_, rfl, hpath, rfl, Or.inr ⟨c, v, b, ctx, rfl⟩⟩
        simp only [mkElement_child_other, if_neg (h.sibling_ne ht), List.length_cons, hpath.left]
      · have hother := Dir.eq_other hdir
        subst hother
        simp only [mkElement_child, if_pos, ahead_cons_far]
        have hup := ih (t := .mk d.other c t v b) h
          (ColourTree.mk_ne_nil d.other c t v b) hpath.right hroom
        rw [addrOf_mk] at hup
        exact hup

/-- `rbtree_search_next` goes on to what is ahead of the cursor. -/
theorem rbtreeSearchNext_spec {tree : RbTree κ} {w : Node κ} {rest : List (Node κ)}
    (h : Rep tree.nodes whole) (hroom : whole.height < path.places)
    (hat : At tree.nodes.nullElement whole d path w rest) :
    exists found, rbtreeSearchNext tree path d d.other = .ok found ∧
      found.2.places = path.places ∧ Comes tree.nodes.nullElement whole d rest found := by
  rcases hat with ⟨c, b, ctx, a, hwhole, hpath, hlast, hrest⟩
  subst hwhole hrest
  have helement := element_frame h
  have hplace : ctx.length + 1 < path.places := path_lt _ _ hroom
  have hright : Rep tree.nodes (plug (⟨d.other, c, w, a⟩ :: ctx) b) := by
    rw [plug_cons, Frame.fill, ColourTree.mk_other]
    exact h
  have hstart : path.last = .ok (ctx.length + 1) := by
    rw [SearchPath.last, hlast]
  rw [rbtreeSearchNext]
  simp only [hstart, bind, Except.bind, parentAt_path hplace, hpath.left, helement,
    mkElement_child_other]
  by_cases hnil : b = .nil
  · subst hnil
    have hleaf : ¬ addrOf tree.nodes.nullElement (.nil : ColourTree (Node κ)) ≠
        tree.nodes.nullElement := not_not.mpr rfl
    rw [if_neg hleaf]
    have hup : Rep tree.nodes (plug ctx (.mk d c a w .nil)) := h
    rcases climb_spec (d := d) hup (ColourTree.mk_ne_nil d c a w .nil) hpath.right hroom with
      ⟨ctx', t', hclimb, hplug, hend, hahead, hshape⟩
    rw [addrOf_mk] at hclimb
    rw [← hplug] at hup
    rcases comes_of_path hup hend hshape with ⟨key, hkey, hcomes⟩
    rw [hplug, hahead] at hcomes
    simp only [hclimb, hkey]
    rw [ColourTree.ordered_nil, List.nil_append]
    exact ⟨_, rfl, rfl, hcomes⟩
  · have hne : addrOf tree.nodes.nullElement b ≠ tree.nodes.nullElement := by
      rw [ne_eq, hright.addrOf_eq_null_iff]
      exact hnil
    have hpath' : PathFor tree.nodes.nullElement path.parents (⟨d.other, c, w, a⟩ :: ctx) :=
      ⟨hpath.left, hpath.right⟩
    have hplug : plug (⟨d, c, w, b⟩ :: ctx) a = plug (⟨d.other, c, w, a⟩ :: ctx) b := by
      rw [plug_cons, plug_cons, Frame.fill, Frame.fill, ColourTree.mk_other]
    rw [hplug] at hroom ⊢
    rcases ColourTree.exists_mk d hnil with ⟨c', a', v, b', rfl⟩
    have hplace' : ctx.length + 1 + 1 < path.places :=
      path_lt (⟨d, c', v, b'⟩ :: ⟨d.other, c, w, a⟩ :: ctx) a' hroom
    have hchild : Rep tree.nodes (plug (⟨d, c', v, b'⟩ :: ⟨d.other, c, w, a⟩ :: ctx) a') := hright
    have hfuel : a'.height < path.places + 1 := by
      have hheight := length_add_height_le (⟨d, c', v, b'⟩ :: ⟨d.other, c, w, a⟩ :: ctx) a'
      exact Nat.lt_succ_of_lt (Nat.lt_of_le_of_lt (Nat.le_of_add_left_le hheight) hroom)
    rcases nextLoop_spec hchild (hpath'.push ⟨d, c', v, b'⟩) hroom hfuel with
      ⟨path', c'', u, e, ctx', hloop, hplaces, hplug', hend, hahead⟩
    have hloop' : nextLoop tree.nodes d (path.places + 1) (path.put (ctx.length + 1 + 1) v.addr)
        (ctx.length + 1 + 1) v.addr = .ok (path', ctx'.length + 1, u.addr) := hloop
    have hkey : tree.nodes.elementKey u.addr = .ok u.key := by
      rw [← hplug'] at hchild
      exact elementKey_frame hchild
    rw [if_pos hne, addrOf_mk]
    simp only [setParent_path hplace', SearchPath.put_places, hloop', hkey]
    refine ⟨_, rfl, hplaces, ?_⟩
    rw [ahead_cons_near, ahead_cons_near, ahead_cons_far] at hahead
    rw [ColourTree.ordered_mk, List.append_assoc, ← hahead]
    exact ⟨rfl, c'', e, ctx', .nil, hplug', hend, rfl, rfl⟩

def cursorKeys (tree : RbTree κ) (lOffs rOffs : Dir) :
    Nat -> Option κ × SearchPath -> Except Fault (List κ)
  | 0, _ => .error .noFuel
  | _ + 1, (none, _) => .ok []
  | turns + 1, (some key, path) => do
      let found <- rbtreeSearchNext tree path lOffs rOffs
      let keys <- cursorKeys tree lOffs rOffs turns found
      .ok (key :: keys)

theorem cursorKeys_spec {tree : RbTree κ} {turns : Nat} {rest : List (Node κ)}
    {found : Option κ × SearchPath} (h : Rep tree.nodes whole)
    (hroom : whole.height < found.2.places) (hturns : rest.length < turns)
    (hcomes : Comes tree.nodes.nullElement whole d rest found) :
    cursorKeys tree d d.other turns found = .ok (rest.map Node.key) := by
  induction rest generalizing turns found with
  | nil =>
      cases turns with
      | zero => cases hturns
      | succ turns =>
          rcases found with ⟨key, path⟩
          have hnone : key = none := hcomes
          rw [hnone]
          rfl
  | cons w rest ih =>
      cases turns with
      | zero => cases hturns
      | succ turns =>
          rcases found with ⟨key, path⟩
          rcases hcomes with ⟨hkey, hat⟩
          have hsome : key = some w.key := hkey
          rcases rbtreeSearchNext_spec h hroom hat with ⟨next, hnext, hplaces, hcomes⟩
          rw [← hplaces] at hroom
          have hrest := ih hroom (Nat.lt_of_succ_lt_succ hturns) hcomes
          rw [hsome, cursorKeys, hnext]
          simp only [bind, Except.bind, hrest]
          rfl

/-!
## A search for a key

Any comparison leads along some path, and every place noted on the way is on it.
-/

/-- The side the loop goes to from an element with this key, unless it makes the
function return. -/
def sideAt (compare : κ -> Int) (flag : HaReadFunc) (key : κ) : Option Dir :=
  (if compare key = 0 then flag.atEqual else some (false, compare key)).map fun step =>
    if step.2 < 0 then .right else .left

def Followed (compare : κ -> Int) (flag : HaReadFunc) (ctx : Context (Node κ)) : Prop :=
  forall f, f ∈ ctx -> sideAt compare flag f.value.key = some f.dir

def Noted (compare : κ -> Int) (flag : HaReadFunc) (f : Frame (Node κ)) : Prop :=
  compare f.value.key = 0 ∧ flag.atEqual.map Prod.fst = some true

instance (compare : κ -> Int) (flag : HaReadFunc) : DecidablePred (Noted compare flag) :=
  fun _ => inferInstanceAs (Decidable (_ ∧ _))

def placesAt (compare : κ -> Int) (flag : HaReadFunc) (ctx : Context (Node κ)) : LastPlaces where
  leftStepParent := lastStepDepth .left ctx
  rightStepParent := lastStepDepth .right ctx
  equalElement := depthOf (Noted compare flag) ctx

def LastPlaces.Within (last : LastPlaces) (n : Nat) : Prop :=
  forall i, last.leftStepParent = some i ∨ last.rightStepParent = some i ∨
    last.equalElement = some i -> 0 < i ∧ i <= n

theorem depthOf_le {P : Frame (Node κ) -> Prop} [DecidablePred P] {i : Nat}
    (h : depthOf P ctx = some i) : 0 < i ∧ i <= ctx.length := by
  rcases depthOf_cases P ctx with ⟨_, hnone⟩ | ⟨inner, f, outer, hctx, _, _, hdepth⟩
  · rw [hnone] at h
    cases h
  · rw [hdepth] at h
    cases h
    rw [hctx, List.length_append, List.length_cons]
    omega

theorem placesAt_within (compare : κ -> Int) (flag : HaReadFunc) (ctx : Context (Node κ)) :
    (placesAt compare flag ctx).Within ctx.length := by
  intro i hi
  rcases hi with hi | hi | hi
  · exact depthOf_le hi
  · exact depthOf_le hi
  · exact depthOf_le hi

theorem LastPlaces.Within.lastPos {last : LastPlaces} {n i : Nat} (h : last.Within n)
    {flag : HaReadFunc} (hflag : flag.lastPos last = some (some i)) : 0 < i ∧ i <= n := by
  rcases last with ⟨left, right, equal⟩
  cases equal <;> cases flag <;> cases hflag <;>
    first
    | exact h _ (Or.inl rfl)
    | exact h _ (Or.inr (Or.inl rfl))
    | exact h _ (Or.inr (Or.inr rfl))

theorem Followed.push {compare : κ -> Int} {flag : HaReadFunc} (h : Followed compare flag ctx)
    {f : Frame (Node κ)} (hf : sideAt compare flag f.value.key = some f.dir) :
    Followed compare flag (f :: ctx) := by
  intro g hg
  cases hg with
  | head => exact hf
  | tail _ hg => exact h g hg

theorem placesAt_right (compare : κ -> Int) (flag : HaReadFunc) (ctx : Context (Node κ))
    (c : Colour) (v : Node κ) (b : ColourTree (Node κ)) {equal : Bool}
    (hequal : Noted compare flag ⟨.right, c, v, b⟩ <-> equal = true) :
    placesAt compare flag (⟨.right, c, v, b⟩ :: ctx) =
      { (if equal = true then
            { placesAt compare flag ctx with equalElement := some (ctx.length + 1) }
          else
            placesAt compare flag ctx) with
        rightStepParent := some (ctx.length + 1) } := by
  cases equal with
  | false => simp [placesAt, lastStepDepth, depthOf, hequal]
  | true => simp [placesAt, lastStepDepth, depthOf, hequal]

theorem placesAt_left (compare : κ -> Int) (flag : HaReadFunc) (ctx : Context (Node κ))
    (c : Colour) (v : Node κ) (b : ColourTree (Node κ)) {equal : Bool}
    (hequal : Noted compare flag ⟨.left, c, v, b⟩ <-> equal = true) :
    placesAt compare flag (⟨.left, c, v, b⟩ :: ctx) =
      { (if equal = true then
            { placesAt compare flag ctx with equalElement := some (ctx.length + 1) }
          else
            placesAt compare flag ctx) with
        leftStepParent := some (ctx.length + 1) } := by
  cases equal with
  | false => simp [placesAt, lastStepDepth, depthOf, hequal]
  | true => simp [placesAt, lastStepDepth, depthOf, hequal]

theorem noted_iff {compare : κ -> Int} {flag : HaReadFunc} {f : Frame (Node κ)} {equal : Bool}
    {cmp : Int} (hstep : (if compare f.value.key = 0 then flag.atEqual
      else some (false, compare f.value.key)) = some (equal, cmp)) :
    Noted compare flag f <-> equal = true := by
  rw [Noted]
  split at hstep
  · rename_i hzero
    rw [hstep, Option.map_some, Option.some.injEq, and_iff_right hzero]
  · rename_i hne
    cases hstep
    simp [hne]

/-- The loop goes down to a leaf, and notes what it should on the way. -/
theorem searchKeyLoop_spec (compare : κ -> Int) (flag : HaReadFunc) {fuel : Nat}
    (h : Rep s (plug ctx t)) (hpath : PathFor s.nullElement path.parents ctx)
    (hroom : (plug ctx t).height < path.places) (hfuel : t.height < fuel)
    (hfollowed : Followed compare flag ctx) :
    exists noted path', searchKeyLoop s compare flag fuel path ctx.length
        (placesAt compare flag ctx) (addrOf s.nullElement t) = .ok (noted, path') ∧
      path'.places = path.places ∧ (noted = none ∧ flag.atEqual = none ∨
        exists ctx', noted = some (placesAt compare flag ctx') ∧ plug ctx' .nil = plug ctx t ∧
          PathFor s.nullElement path'.parents ctx' ∧ Followed compare flag ctx') := by
  induction fuel generalizing ctx t path with
  | zero => cases hfuel
  | succ fuel ih =>
      rw [searchKeyLoop]
      cases t with
      | nil =>
          rw [addrOf, if_pos rfl]
          exact ⟨_, path, rfl, rfl, Or.inr ⟨ctx, rfl, rfl, hpath, hfollowed⟩⟩
      | node c a v b =>
          have hne : addrOf s.nullElement (.node c a v b) ≠ s.nullElement := by
            rw [ne_eq, h.addrOf_eq_null_iff]
            exact ColourTree.mk_ne_nil .left c a v b
          have hleft : Rep s (plug (⟨.left, c, v, b⟩ :: ctx) a) := h
          have hright : Rep s (plug (⟨.right, c, v, a⟩ :: ctx) b) := h
          have hplace : ctx.length + 1 < path.places :=
            path_lt (⟨.left, c, v, b⟩ :: ctx) a hroom
          have hfuelLeft : a.height < fuel :=
            Nat.lt_of_lt_of_le (Frame.height_lt ⟨.left, c, v, b⟩ a) (Nat.le_of_lt_succ hfuel)
          have hfuelRight : b.height < fuel :=
            Nat.lt_of_lt_of_le (Frame.height_lt ⟨.right, c, v, a⟩ b) (Nat.le_of_lt_succ hfuel)
          have hkey := elementKey_frame hleft
          have helement := element_frame hleft
          have haddr : addrOf s.nullElement (.node c a v b) = v.addr := rfl
          rw [if_neg hne, haddr]
          simp only [setParent_path hplace, bind, Except.bind, hkey, helement]
          cases hstep : if compare v.key = 0 then flag.atEqual else some (false, compare v.key) with
          | none =>
              have hflag : flag.atEqual = none := by
                split at hstep
                · exact hstep
                · cases hstep
              exact ⟨none, _, rfl, rfl, Or.inl ⟨rfl, hflag⟩⟩
          | some step =>
              rcases step with ⟨equal, cmp⟩
              have hside : sideAt compare flag v.key =
                  some (if cmp < 0 then .right else .left) := by
                rw [sideAt, hstep, Option.map_some]
              by_cases hlt : cmp < 0
              · rw [if_pos hlt] at hside
                have hnoted := noted_iff (f := ⟨.right, c, v, a⟩) hstep
                simp only [if_pos hlt]
                rw [← placesAt_right compare flag ctx c v a hnoted]
                exact ih hright (hpath.push ⟨.right, c, v, a⟩) hroom hfuelRight
                  (hfollowed.push hside)
              · rw [if_neg hlt] at hside
                have hnoted := noted_iff (f := ⟨.left, c, v, b⟩) hstep
                simp only [if_neg hlt]
                rw [← placesAt_left compare flag ctx c v b hnoted]
                exact ih hleft (hpath.push ⟨.left, c, v, b⟩) hroom hfuelLeft
                  (hfollowed.push hside)

theorem exists_at (h : Rep s (plug ctx t)) (hpath : PathFor s.nullElement path.parents ctx)
    {i : Nat} (hpos : 0 < i) (hi : i <= ctx.length) :
    exists w, path.parents i = w.addr ∧ s.elementKey w.addr = .ok w.key ∧
      forall d, exists earlier rest, (plug ctx t).ordered d = earlier ++ w :: rest ∧
        At s.nullElement (plug ctx t) d { path with lastPos := some i } w rest := by
  induction ctx generalizing t with
  | nil => exact absurd (Nat.lt_of_lt_of_le hpos hi) (Nat.lt_irrefl 0)
  | cons f ctx ih =>
      by_cases hend : i = ctx.length + 1
      · subst hend
        rcases f with ⟨e, c, w, b⟩
        refine ⟨w, hpath.left, elementKey_frame h, fun d => ?_⟩
        have hside : exists a' b', plug (⟨d, c, w, b'⟩ :: ctx) a' =
            plug (⟨e, c, w, b⟩ :: ctx) t := by
          by_cases hdir : e = d
          · subst hdir
            exact ⟨t, b, rfl⟩
          · have hother := Dir.eq_other hdir
            subst hother
            refine ⟨b, t, ?_⟩
            rw [plug_cons, plug_cons, Frame.fill, Frame.fill, ColourTree.mk_other]
        rcases hside with ⟨a', b', hside⟩
        refine ⟨behind d ctx ++ a'.ordered d, b'.ordered d ++ ahead d ctx, ?_,
          c, b', ctx, a', hside, ⟨hpath.left, hpath.right⟩, rfl, rfl⟩
        rw [← hside, plug_cons, ordered_plug, Frame.fill, ColourTree.ordered_mk]
        simp only [List.append_assoc, List.cons_append]
      · rw [List.length_cons] at hi
        have hi' : i <= ctx.length := by omega
        exact ih (t := f.fill t) h hpath.right hi'

/-- `rbtree_search_key` goes down to a leaf and looks at the places noted, unless
it returns at an equal element. -/
theorem searchKey_way {tree : RbTree κ} (compare : κ -> Int) (flag : HaReadFunc)
    (h : Rep tree.nodes t) (hroom : t.height < path.places) :
    exists path', path'.places = path.places ∧
      (searchKey tree compare path flag = .ok (none, path') ∧ flag.atEqual = none ∨
        exists ctx, plug ctx .nil = t ∧ PathFor tree.nodes.nullElement path'.parents ctx ∧
          Followed compare flag ctx ∧ searchKey tree compare path flag =
            searchKeyEnd tree.nodes flag path' (placesAt compare flag ctx)) := by
  have hplace : 0 < path.places := Nat.zero_lt_of_lt hroom
  have hrep : Rep tree.nodes (plug [] t) := h
  rcases exists_start (κ := κ) hplace tree.nodes.nullElement with
    ⟨start, hstart, hplaces, hpath⟩
  rw [← hplaces] at hroom
  have hfuel : t.height < start.places + 1 := Nat.lt_succ_of_lt hroom
  rcases searchKeyLoop_spec compare flag hrep hpath hroom hfuel
    (fun f hf => by cases hf) with ⟨noted, path', hloop, hplaces', hnoted⟩
  have hempty : placesAt compare flag ([] : Context (Node κ)) = ⟨none, none, none⟩ := rfl
  rw [List.length_nil, hempty] at hloop
  refine ⟨path', hplaces'.trans hplaces, ?_⟩
  rw [searchKey]
  simp only [hstart, bind, Except.bind, h.root_eq, hloop]
  rcases hnoted with ⟨hnone, hflag⟩ | ⟨ctx, hsome, hplug, hend, hfollowed⟩
  · subst hnone
    exact Or.inl ⟨rfl, hflag⟩
  · subst hsome
    exact Or.inr ⟨ctx, hplug, hend, hfollowed, rfl⟩

theorem searchKey_spec {tree : RbTree κ} (compare : κ -> Int) (flag : HaReadFunc)
    (h : Rep tree.nodes t) (hroom : t.height < path.places) :
    exists found, searchKey tree compare path flag = .ok found ∧
      found.2.places = path.places ∧
      forall key, found.1 = some key -> forall d, exists earlier w rest,
        t.ordered d = earlier ++ w :: rest ∧
          Comes tree.nodes.nullElement t d (w :: rest) found := by
  rcases searchKey_way compare flag h hroom with
    ⟨path', hplaces, ⟨hsearch, _⟩ | ⟨ctx, hplug, hend, _, hsearch⟩⟩
  · refine ⟨_, hsearch, hplaces, fun key hkey => ?_⟩
    cases hkey
  · have hwithin := placesAt_within compare flag ctx
    subst hplug
    rw [hsearch, searchKeyEnd]
    cases hflag : flag.lastPos (placesAt compare flag ctx) with
    | none =>
        refine ⟨_, rfl, hplaces, fun key hkey => ?_⟩
        cases hkey
    | some place =>
        cases place with
        | none =>
            refine ⟨_, rfl, hplaces, fun key hkey => ?_⟩
            cases hkey
        | some i =>
            rcases hwithin.lastPos hflag with ⟨hpos, hi⟩
            have hplace : i < path'.places := by
              rw [hplaces]
              exact Nat.lt_of_le_of_lt hi (path_lt _ _ hroom)
            rcases exists_at h hend hpos hi with ⟨w, haddr, hkey, hat⟩
            simp only [bind, Except.bind, parentAt_path hplace, haddr, hkey]
            refine ⟨_, rfl, hplaces, fun key _ d => ?_⟩
            rcases hat d with ⟨earlier, rest, hordered, hat⟩
            exact ⟨earlier, w, rest, hordered, rfl, hat⟩

end RBTree
end MyLibs
