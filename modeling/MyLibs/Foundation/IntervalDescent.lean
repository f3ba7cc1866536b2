import MyLibs.Foundation.TreeContext

/-!
# Halving an interval on the way down

A way down from the root keeps one part of an interval at each node: the upper
part where it goes to the right, the lower part where it goes to the left. Two
ways down part at one node at most, and from there on their intervals lie on the
two sides of the value between them. The value only has to be between the ends.
-/

namespace MyLibs
namespace Foundation

variable {α K : Type _} {mid : K -> K -> K}

def halve (mid : K -> K -> K) (right : α -> Bool) : ColourTree α -> K -> K -> K × K
  | .nil, low, high => (low, high)
  | .node _ a v b, low, high =>
      if right v then halve mid right b (mid low high) high
      else halve mid right a low (mid low high)

section Halve

variable {right : α -> Bool} {c : Colour} {a b : ColourTree α} {v : α} {low high : K}

theorem halve_right (h : right v = true) : halve mid right (.node c a v b) low high =
    halve mid right b (mid low high) high := by
  rw [halve, if_pos h]

theorem halve_left (h : right v = false) : halve mid right (.node c a v b) low high =
    halve mid right a low (mid low high) := by
  rw [halve, h]
  rfl

end Halve

def RightFirst (right : α -> Bool) (l : List α) : Prop :=
  l.Pairwise fun u v => right v = true -> right u = true

section RightFirst

variable {right : α -> Bool} {c : Colour} {a b : ColourTree α} {v : α}

theorem RightFirst.node_left (h : RightFirst right (ColourTree.node c a v b).toList) :
    RightFirst right a.toList :=
  (List.pairwise_append.mp h).left

theorem RightFirst.node_right (h : RightFirst right (ColourTree.node c a v b).toList) :
    RightFirst right b.toList :=
  (List.pairwise_cons.mp (List.pairwise_append.mp h).right.left).right

theorem RightFirst.mem_left (h : RightFirst right (ColourTree.node c a v b).toList)
    (hv : right v = false) {u : α} (hu : u ∈ (ColourTree.node c a v b).toList)
    (hright : right u = true) : u ∈ a.toList := by
  rcases List.mem_append.mp hu with hu | hu
  · exact hu
  · rcases List.mem_cons.mp hu with hsame | hu
    · rw [hsame, hv] at hright
      cases hright
    · have hbefore := (List.pairwise_cons.mp (List.pairwise_append.mp h).right.left).left
      have hcontra := hbefore u hu hright
      rw [hv] at hcontra
      cases hcontra

theorem RightFirst.mem_right (h : RightFirst right (ColourTree.node c a v b).toList)
    (hv : right v = true) {u : α} (hu : u ∈ (ColourTree.node c a v b).toList)
    (hleft : right u = false) : u ∈ b.toList := by
  rcases List.mem_append.mp hu with hu | hu
  · have hcontra := (List.pairwise_append.mp h).right.right u hu v (List.mem_cons_self ..) hv
    rw [hleft] at hcontra
    cases hcontra
  · rcases List.mem_cons.mp hu with hsame | hu
    · rw [hsame, hv] at hleft
      cases hleft
    · exact hu

end RightFirst

/-!
## Where two ways end
-/

def Between [LE K] (mid : K -> K -> K) : Prop :=
  forall {low high : K}, low <= high -> low <= mid low high ∧ mid low high <= high

section Order

variable [LE K] [Std.IsPreorder K] {low high : K}

theorem halve_inside (hmid : Between mid) (right : α -> Bool) (t : ColourTree α)
    (hle : low <= high) :
    low <= (halve mid right t low high).1 ∧
      (halve mid right t low high).1 <= (halve mid right t low high).2 ∧
      (halve mid right t low high).2 <= high := by
  induction t generalizing low high with
  | nil => exact ⟨Std.le_refl low, hle, Std.le_refl high⟩
  | node c a v b iha ihb =>
      rcases hmid hle with ⟨hlower, hupper⟩
      cases hv : right v with
      | true =>
          rw [halve_right hv]
          rcases ihb hupper with ⟨hlow, hordered, hhigh⟩
          exact ⟨Std.le_trans hlower hlow, hordered, hhigh⟩
      | false =>
          rw [halve_left hv]
          rcases iha hlower with ⟨hlow, hordered, hhigh⟩
          exact ⟨hlow, hordered, Std.le_trans hhigh hupper⟩

/-- Where one way turns left and the other right, the first interval is below the
second. -/
theorem halve_parted (hmid : Between mid) {right right' : α -> Bool} {c : Colour}
    {a b : ColourTree α} {v : α} (hv : right v = false) (hv' : right' v = true)
    (hle : low <= high) :
    (halve mid right (.node c a v b) low high).2 <=
      (halve mid right' (.node c a v b) low high).1 := by
  rcases hmid hle with ⟨hlower, hupper⟩
  have hbelow := halve_inside hmid right a hlower
  have habove := halve_inside hmid right' b hupper
  rw [halve_left hv, halve_right hv']
  exact Std.le_trans hbelow.right.right habove.left

theorem halve_mono (hmid : Between mid) {right right' : α -> Bool} (t : ColourTree α)
    (hmore : forall v, v ∈ t.toList -> right v = true -> right' v = true)
    (hle : low <= high) :
    (halve mid right t low high).1 <= (halve mid right' t low high).1 ∧
      (halve mid right t low high).2 <= (halve mid right' t low high).2 := by
  induction t generalizing low high with
  | nil => exact ⟨Std.le_refl low, Std.le_refl high⟩
  | node c a v b iha ihb =>
      rcases hmid hle with ⟨hlower, hupper⟩
      cases hv : right v with
      | true =>
          have hv' := hmore v (List.mem_append_right _ (List.mem_cons_self ..)) hv
          rw [halve_right hv, halve_right hv']
          apply ihb _ hupper
          exact fun u hu => hmore u (List.mem_append_right _ (List.mem_cons_of_mem v hu))
      | false =>
          cases hv' : right' v with
          | true =>
              have hparted := halve_parted (c := c) (a := a) (b := b) hmid hv hv' hle
              have hordered := (halve_inside hmid right (.node c a v b) hle).right.left
              have hordered' := (halve_inside hmid right' (.node c a v b) hle).right.left
              exact ⟨Std.le_trans hordered hparted, Std.le_trans hparted hordered'⟩
          | false =>
              rw [halve_left hv, halve_left hv']
              apply iha _ hlower
              exact fun u hu => hmore u (List.mem_append_left _ hu)

theorem halve_apart (hmid : Between mid) {right right' : α -> Bool} (t : ColourTree α)
    (hmore : forall v, v ∈ t.toList -> right v = true -> right' v = true)
    (hfirst : RightFirst right t.toList) (hfirst' : RightFirst right' t.toList)
    (hle : low <= high) {u : α} (hu : u ∈ t.toList) (hleft : right u = false)
    (hright : right' u = true) :
    (halve mid right t low high).2 <= (halve mid right' t low high).1 := by
  induction t generalizing low high with
  | nil => cases hu
  | node c a v b iha ihb =>
      rcases hmid hle with ⟨hlower, hupper⟩
      cases hv : right v with
      | true =>
          have hv' := hmore v (List.mem_append_right _ (List.mem_cons_self ..)) hv
          rw [halve_right hv, halve_right hv']
          apply ihb _ hfirst.node_right hfirst'.node_right hupper
          · exact hfirst.mem_right hv hu hleft
          · exact fun w hw => hmore w (List.mem_append_right _ (List.mem_cons_of_mem v hw))
      | false =>
          cases hv' : right' v with
          | true => exact halve_parted hmid hv hv' hle
          | false =>
              rw [halve_left hv, halve_left hv']
              apply iha _ hfirst.node_left hfirst'.node_left hlower
              · exact hfirst'.mem_left hv' hu hright
              · exact fun w hw => hmore w (List.mem_append_left _ hw)

end Order

end Foundation
end MyLibs
