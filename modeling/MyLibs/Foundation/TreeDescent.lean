import MyLibs.Foundation.TreeContext

/-!
# Descents

A way down from the root of a tree, seen through the context it ends in. The last
step to one side is at the neighbour of the hole on the other side.
-/

namespace MyLibs
namespace Foundation

variable {α : Type _} {ctx : Context α} {t : ColourTree α}

def valueOf (P : Frame α -> Prop) [DecidablePred P] : Context α -> Option α
  | [] => none
  | f :: ctx => if P f then some f.value else valueOf P ctx

def depthOf (P : Frame α -> Prop) [DecidablePred P] : Context α -> Option Nat
  | [] => none
  | f :: ctx => if P f then some (ctx.length + 1) else depthOf P ctx

theorem depthOf_cases (P : Frame α -> Prop) [DecidablePred P] (ctx : Context α) :
    (valueOf P ctx = none ∧ depthOf P ctx = none) ∨
      exists inner f outer, ctx = inner ++ f :: outer ∧ P f ∧
        valueOf P ctx = some f.value ∧ depthOf P ctx = some (outer.length + 1) := by
  induction ctx with
  | nil => exact Or.inl ⟨rfl, rfl⟩
  | cons f ctx ih =>
      rw [valueOf, depthOf]
      by_cases hf : P f
      · rw [if_pos hf, if_pos hf]
        exact Or.inr ⟨[], f, ctx, rfl, hf, rfl, rfl⟩
      · rw [if_neg hf, if_neg hf]
        refine ih.imp_right fun hsome => ?_
        rcases hsome with ⟨inner, g, outer, hctx, hg, hvalue, hdepth⟩
        exact ⟨f :: inner, g, outer, by rw [hctx]; rfl, hg, hvalue, hdepth⟩

def lastStep (d : Dir) (ctx : Context α) : Option α :=
  valueOf (fun f => f.dir = d) ctx

def lastStepDepth (d : Dir) (ctx : Context α) : Option Nat :=
  depthOf (fun f => f.dir = d) ctx

theorem lastStep_right (ctx : Context α) : lastStep .right ctx = (before ctx).getLast? := by
  induction ctx with
  | nil => rfl
  | cons f ctx ih =>
      rcases f with ⟨e, c, v, b⟩
      cases e with
      | left =>
          rw [before, Frame.before, List.append_nil, ← ih]
          rfl
      | right =>
          rw [before, Frame.before, ← List.append_assoc, List.getLast?_concat]
          rfl

theorem lastStep_left (ctx : Context α) : lastStep .left ctx = (after ctx).head? := by
  induction ctx with
  | nil => rfl
  | cons f ctx ih =>
      rcases f with ⟨e, c, v, b⟩
      cases e with
      | left => rfl
      | right =>
          rw [after, Frame.after, List.nil_append, ← ih]
          rfl

/-!
## Ways from the root
-/

inductive RootPath : ColourTree α -> List α -> Prop
  | root (c : Colour) (a : ColourTree α) (v : α) (b : ColourTree α) :
      RootPath (.node c a v b) [v]
  | left {c : Colour} {a : ColourTree α} {v : α} {b : ColourTree α} {path : List α} :
      RootPath a path -> RootPath (.node c a v b) (v :: path)
  | right {c : Colour} {a : ColourTree α} {v : α} {b : ColourTree α} {path : List α} :
      RootPath b path -> RootPath (.node c a v b) (v :: path)

theorem RootPath.fill {path : List α} (h : RootPath t path) (f : Frame α) :
    RootPath (f.fill t) (f.value :: path) := by
  rcases f with ⟨d, c, v, b⟩
  cases d with
  | left => exact .left h
  | right => exact .right h

theorem RootPath.plug {path : List α} (h : RootPath t path) (ctx : Context α) :
    RootPath (plug ctx t) (ctx.reverse.map Frame.value ++ path) := by
  induction ctx generalizing t path with
  | nil => exact h
  | cons f ctx ih =>
      have hfilled := ih (h.fill f)
      rw [List.reverse_cons, List.map_append, List.append_assoc]
      exact hfilled

theorem rootPath_frame (d : Dir) (c : Colour) (v : α) (b : ColourTree α) (outer : Context α)
    (t : ColourTree α) : RootPath (Foundation.plug (⟨d, c, v, b⟩ :: outer) t)
      (outer.reverse.map Frame.value ++ [v]) := by
  have hroot : RootPath (Frame.fill ⟨d, c, v, b⟩ t) [v] := by
    cases d with
    | left => exact .root c t v b
    | right => exact .root c b v t
  exact hroot.plug outer

/-!
## Splits of the order
-/

/-- A list falls in only one way into a part whose members have a property and a
part whose members do not. -/
theorem split_unique {P : α -> Prop} {first rest first' rest' : List α}
    (h : first ++ rest = first' ++ rest') (hfirst : forall u, u ∈ first -> P u)
    (hrest : forall u, u ∈ rest -> ¬P u) (hfirst' : forall u, u ∈ first' -> P u)
    (hrest' : forall u, u ∈ rest' -> ¬P u) : first = first' ∧ rest = rest' := by
  induction first generalizing first' with
  | nil =>
      cases first' with
      | nil => exact ⟨rfl, h⟩
      | cons u first' =>
          have hu : u ∈ rest := by
            rw [← List.nil_append rest, h]
            exact List.mem_cons_self ..
          exact absurd (hfirst' u (List.mem_cons_self ..)) (hrest u hu)
  | cons u first ih =>
      cases first' with
      | nil =>
          have hu : u ∈ rest' := by
            rw [← List.nil_append rest', ← h]
            exact List.mem_cons_self ..
          exact absurd (hfirst u (List.mem_cons_self ..)) (hrest' u hu)
      | cons w first' =>
          rw [List.cons_append, List.cons_append, List.cons.injEq] at h
          rcases ih h.right (fun x hx => hfirst x (List.mem_cons_of_mem u hx))
            (fun x hx => hfirst' x (List.mem_cons_of_mem w hx)) with ⟨hsame, hsame'⟩
          rw [h.left, hsame]
          exact ⟨rfl, hsame'⟩

end Foundation
end MyLibs
