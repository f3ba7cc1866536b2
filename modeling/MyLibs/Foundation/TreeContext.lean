import Mathlib.Algebra.Order.Ring.Nat
import Mathlib.Data.List.Nodup
import Mathlib.Tactic.Common

/-!
# Coloured binary trees and their contexts

Binary trees whose nodes have a colour, and trees with a hole. A context lists
the nodes from the hole up to the root, each with the subtree on its other side.
Sides are named, so that one statement covers both mirror images.
-/

namespace MyLibs
namespace Foundation

inductive Colour where
  | red
  | black
deriving DecidableEq

inductive Dir where
  | left
  | right
deriving DecidableEq

def Dir.other : Dir -> Dir
  | .left => .right
  | .right => .left

theorem Dir.eq_other {d e : Dir} (h : d ≠ e) : d = e.other := by
  cases d <;> cases e <;> first | rfl | exact absurd rfl h

inductive ColourTree (α : Type _) where
  | nil
  | node (colour : Colour) (left : ColourTree α) (value : α) (right : ColourTree α)

namespace ColourTree

variable {α : Type _}

def mk (d : Dir) (c : Colour) (near : ColourTree α) (v : α) (far : ColourTree α) : ColourTree α :=
  match d with
  | .left => node c near v far
  | .right => node c far v near

def colour : ColourTree α -> Colour
  | nil => .black
  | node c _ _ _ => c

def setColour (c : Colour) : ColourTree α -> ColourTree α
  | nil => nil
  | node _ l v r => node c l v r

def toList : ColourTree α -> List α
  | nil => []
  | node _ l v r => l.toList ++ v :: r.toList

def size : ColourTree α -> Nat
  | nil => 0
  | node _ l _ r => l.size + r.size + 1

def height : ColourTree α -> Nat
  | nil => 0
  | node _ l _ r => max l.height r.height + 1

@[simp]
theorem colour_mk (d : Dir) (c : Colour) (a : ColourTree α) (v : α) (b : ColourTree α) :
    (mk d c a v b).colour = c := by
  cases d <;> rfl

@[simp]
theorem setColour_mk (d : Dir) (c c' : Colour) (a : ColourTree α) (v : α) (b : ColourTree α) :
    (mk d c a v b).setColour c' = mk d c' a v b := by
  cases d <;> rfl

theorem mk_other (d : Dir) (c : Colour) (a : ColourTree α) (v : α) (b : ColourTree α) :
    mk d.other c a v b = mk d c b v a := by
  cases d <;> rfl

theorem mk_ne_nil (d : Dir) (c : Colour) (a : ColourTree α) (v : α) (b : ColourTree α) :
    mk d c a v b ≠ nil := by
  cases d <;> simp [mk]

theorem exists_mk (d : Dir) {t : ColourTree α} (h : t ≠ nil) :
    exists c a v b, t = mk d c a v b := by
  cases t with
  | nil => exact absurd rfl h
  | node c l v r =>
      cases d with
      | left => exact ⟨c, l, v, r, rfl⟩
      | right => exact ⟨c, r, v, l, rfl⟩

theorem exists_mk_of_red (d : Dir) {t : ColourTree α} (h : t.colour = .red) :
    exists a v b, t = mk d .red a v b := by
  have hne : t ≠ nil := by
    rintro rfl
    cases h
  rcases exists_mk d hne with ⟨c, a, v, b, rfl⟩
  rw [colour_mk] at h
  exact ⟨a, v, b, by rw [h]⟩

@[simp]
theorem setColour_setColour (c c' : Colour) (t : ColourTree α) :
    (t.setColour c).setColour c' = t.setColour c' := by
  cases t <;> rfl

theorem setColour_self {c : Colour} {t : ColourTree α} (h : t.colour = c) : t.setColour c = t := by
  cases t with
  | nil => rfl
  | node c' l v r =>
      cases h
      rfl

theorem colour_setColour (c : Colour) {t : ColourTree α} (h : t.colour = .red) :
    (t.setColour c).colour = c := by
  rcases exists_mk_of_red .left h with ⟨a, v, b, rfl⟩
  rw [setColour_mk, colour_mk]

theorem length_toList (t : ColourTree α) : t.toList.length = t.size := by
  induction t with
  | nil => rfl
  | node c l v r ihl ihr =>
      rw [toList, List.length_append, List.length_cons, ihl, ihr, size]
      omega

theorem toList_mk_congr {d : Dir} {c c' : Colour} {a a' b b' : ColourTree α} {v : α}
    (ha : a'.toList = a.toList) (hb : b'.toList = b.toList) :
    (mk d c' a' v b').toList = (mk d c a v b).toList := by
  cases d <;> simp [mk, toList, ha, hb]

/-- Rotating a node down to side `d` keeps the order of the values. -/
theorem toList_rotate (d : Dir) (c c' : Colour) (a b e : ColourTree α) (v w : α) :
    (mk d c' (mk d c a v b) w e).toList = (mk d c a v (mk d c' b w e)).toList := by
  cases d <;> simp [mk, toList]

end ColourTree

/-!
## Contexts
-/

/-- A node on the way to the hole, which is on side `dir` of it. -/
structure Frame (α : Type _) where
  dir : Dir
  colour : Colour
  value : α
  sibling : ColourTree α

abbrev Context (α : Type _) := List (Frame α)

variable {α : Type _}

def Frame.fill (f : Frame α) (t : ColourTree α) : ColourTree α :=
  .mk f.dir f.colour t f.value f.sibling

def plug : Context α -> ColourTree α -> ColourTree α
  | [], t => t
  | f :: ctx, t => plug ctx (f.fill t)

def Frame.before (f : Frame α) : List α :=
  match f.dir with
  | .left => []
  | .right => f.sibling.toList ++ [f.value]

def Frame.after (f : Frame α) : List α :=
  match f.dir with
  | .left => f.value :: f.sibling.toList
  | .right => []

def before : Context α -> List α
  | [] => []
  | f :: ctx => before ctx ++ f.before

def after : Context α -> List α
  | [] => []
  | f :: ctx => f.after ++ after ctx

@[simp]
theorem plug_nil (t : ColourTree α) : plug [] t = t :=
  rfl

@[simp]
theorem plug_cons (f : Frame α) (ctx : Context α) (t : ColourTree α) :
    plug (f :: ctx) t = plug ctx (f.fill t) :=
  rfl

theorem plug_append (ctx ctx' : Context α) (t : ColourTree α) :
    plug (ctx ++ ctx') t = plug ctx' (plug ctx t) := by
  induction ctx generalizing t with
  | nil => rfl
  | cons f ctx ih => exact ih (f.fill t)

theorem Frame.toList_fill (f : Frame α) (t : ColourTree α) :
    (f.fill t).toList = f.before ++ t.toList ++ f.after := by
  rcases f with ⟨_ | _, c, v, s⟩ <;>
      simp [Frame.fill, ColourTree.mk, ColourTree.toList, before, after]

theorem toList_plug (ctx : Context α) (t : ColourTree α) :
    (plug ctx t).toList = before ctx ++ t.toList ++ after ctx := by
  induction ctx generalizing t with
  | nil => simp [before, after]
  | cons f ctx ih =>
      rw [plug_cons, ih, f.toList_fill, before, after]
      simp only [List.append_assoc]

theorem before_append (ctx ctx' : Context α) :
    before (ctx ++ ctx') = before ctx' ++ before ctx := by
  induction ctx with
  | nil => exact (List.append_nil _).symm
  | cons f ctx ih =>
      rw [List.cons_append, before, ih, before, List.append_assoc]

theorem toList_focus (ctx : Context α) (c : Colour) (a : ColourTree α) (v : α) (b : ColourTree α) :
    (plug ctx (.node c a v b)).toList =
      (before ctx ++ a.toList) ++ v :: (b.toList ++ after ctx) := by
  simp [toList_plug, ColourTree.toList]

theorem ColourTree.ne_nil_of_toList {t t' : ColourTree α} {f : Frame α} {ctx : Context α}
    (h : t'.toList = (plug (f :: ctx) t).toList) : t' ≠ .nil := by
  rintro rfl
  have hvalue : f.value ∈ (plug (f :: ctx) t).toList := by
    rw [plug_cons, toList_plug, f.toList_fill]
    rcases f with ⟨_ | _, c, v, s⟩ <;> simp [Frame.before, Frame.after]
  rw [← h] at hvalue
  cases hvalue

theorem toList_plug_congr (ctx : Context α) {t t' : ColourTree α} (h : t'.toList = t.toList) :
    (plug ctx t').toList = (plug ctx t).toList := by
  rw [toList_plug, toList_plug, h]

def ColourTree.map {β : Type _} (f : α -> β) : ColourTree α -> ColourTree β
  | .nil => .nil
  | .node c l v r => .node c (l.map f) (f v) (r.map f)

theorem map_plug_congr {β : Type _} {f : α -> β} (ctx : Context α) {t t' : ColourTree α}
    (h : t'.map f = t.map f) : (plug ctx t').map f = (plug ctx t).map f := by
  induction ctx generalizing t t' with
  | nil => exact h
  | cons g ctx ih =>
      refine ih ?_
      rcases g with ⟨_ | _, c, v, s⟩ <;> simp [Frame.fill, ColourTree.mk, ColourTree.map, h]

theorem Frame.height_lt (f : Frame α) (t : ColourTree α) : t.height < (f.fill t).height := by
  rcases f with ⟨_ | _, c, v, s⟩
  · exact Nat.lt_succ_of_le (Nat.le_max_left ..)
  · exact Nat.lt_succ_of_le (Nat.le_max_right ..)

theorem length_add_height_le (ctx : Context α) (t : ColourTree α) :
    ctx.length + t.height <= (plug ctx t).height := by
  induction ctx generalizing t with
  | nil => simp
  | cons f ctx ih =>
      have hfill := f.height_lt t
      have hrest := ih (f.fill t)
      rw [plug_cons, List.length_cons]
      omega

theorem height_plug_congr (ctx : Context α) {t t' : ColourTree α} (h : t'.height = t.height) :
    (plug ctx t').height = (plug ctx t).height := by
  induction ctx generalizing t t' with
  | nil => exact h
  | cons f ctx ih =>
      refine ih ?_
      rcases f with ⟨_ | _, c, v, s⟩ <;> simp [Frame.fill, ColourTree.mk, ColourTree.height, h]

theorem ColourTree.exists_place {v : α} {t : ColourTree α} (h : v ∈ t.toList) :
    exists ctx c a b, t = plug ctx (.mk .left c a v b) := by
  induction t with
  | nil => cases h
  | node c l w r ihl ihr =>
      rcases List.mem_append.mp h with hleft | hright
      · rcases ihl hleft with ⟨ctx, c', a, b, hl⟩
        refine ⟨ctx ++ [⟨.left, c, w, r⟩], c', a, b, ?_⟩
        rw [plug_append, ← hl]
        rfl
      · rcases List.mem_cons.mp hright with heq | hright
        · exact ⟨[], c, l, r, by rw [heq]; rfl⟩
        · rcases ihr hright with ⟨ctx, c', a, b, hr⟩
          refine ⟨ctx ++ [⟨.right, c, w, l⟩], c', a, b, ?_⟩
          rw [plug_append, ← hr]
          rfl

def headColour : Context α -> Colour
  | [] => .black
  | f :: _ => f.colour

theorem Frame.fill_mk (f : Frame α) (t : ColourTree α) :
    f.fill t = ({ f with dir := f.dir.other, sibling := t } : Frame α).fill f.sibling := by
  rw [fill, fill, ColourTree.mk_other]

/-!
## Both orders
-/

def ColourTree.ordered (d : Dir) (t : ColourTree α) : List α :=
  match d with
  | .left => t.toList
  | .right => t.toList.reverse

def behind (d : Dir) (ctx : Context α) : List α :=
  match d with
  | .left => before ctx
  | .right => (after ctx).reverse

def ahead (d : Dir) (ctx : Context α) : List α :=
  match d with
  | .left => after ctx
  | .right => (before ctx).reverse

@[simp]
theorem ColourTree.ordered_nil (d : Dir) : (nil : ColourTree α).ordered d = [] := by
  cases d <;> rfl

@[simp]
theorem ahead_nil (d : Dir) : ahead d ([] : Context α) = [] := by
  cases d <;> rfl

theorem ColourTree.ordered_mk (d : Dir) (c : Colour) (a : ColourTree α) (v : α)
    (b : ColourTree α) : (mk d c a v b).ordered d = a.ordered d ++ v :: b.ordered d := by
  cases d with
  | left => rfl
  | right => simp [ordered, mk, toList]

theorem ordered_plug (d : Dir) (ctx : Context α) (t : ColourTree α) :
    (plug ctx t).ordered d = behind d ctx ++ t.ordered d ++ ahead d ctx := by
  cases d with
  | left => exact toList_plug ctx t
  | right =>
      show (plug ctx t).toList.reverse = _
      rw [toList_plug]
      simp [behind, ahead, ColourTree.ordered]

theorem ahead_cons_near (d : Dir) (c : Colour) (v : α) (b : ColourTree α) (ctx : Context α) :
    ahead d (⟨d, c, v, b⟩ :: ctx) = v :: b.ordered d ++ ahead d ctx := by
  cases d with
  | left => rfl
  | right => simp [ahead, before, Frame.before, ColourTree.ordered]

theorem ahead_cons_far (d : Dir) (c : Colour) (v : α) (a : ColourTree α) (ctx : Context α) :
    ahead d (⟨d.other, c, v, a⟩ :: ctx) = ahead d ctx := by
  cases d with
  | left => rfl
  | right => simp [ahead, before, Frame.before, Dir.other]

end Foundation
end MyLibs
