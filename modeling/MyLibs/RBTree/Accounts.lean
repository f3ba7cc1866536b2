import MyLibs.RBTree.Steps

/-!
# Accounts

What `allocated` counts. The size of the key an element was inserted with is
kept here by the address of the element; the code relies on its caller for it.
-/

namespace MyLibs
namespace RBTree

open Foundation

variable {κ : Type} {t t' : ColourTree (Node κ)} {tree tree' : RbTree κ} {key : κ}
  {keySize : Nat} {malloc : Malloc κ} {p : Ptr} {sizes sizes' : Ptr -> Nat}

def total (sizes : Ptr -> Nat) (size : Nat) (l : List (Node κ)) : Nat :=
  (l.map fun u => sizeofElement + sizes u.addr + size).sum

theorem total_append (sizes : Ptr -> Nat) (size : Nat) (first rest : List (Node κ)) :
    total sizes size (first ++ rest) = total sizes size first + total sizes size rest := by
  rw [total, List.map_append, List.sum_append]
  rfl

theorem total_cons (sizes : Ptr -> Nat) (size : Nat) (u : Node κ) (l : List (Node κ)) :
    total sizes size (u :: l) = sizeofElement + sizes u.addr + size + total sizes size l := by
  rw [total, List.map_cons, List.sum_cons]
  rfl

theorem total_congr {size : Nat} {l l' : List (Node κ)}
    (h : l'.map Node.place = l.map Node.place) : total sizes size l' = total sizes size l := by
  have hplaces : forall l : List (Node κ), total sizes size l =
      ((l.map Node.place).map fun place => sizeofElement + sizes place.1 + size).sum := by
    intro l
    rw [List.map_map]
    rfl
  rw [hplaces, hplaces, h]

theorem total_update (sizes : Ptr -> Nat) (keySize size : Nat) {l : List (Node κ)}
    (h : p ∉ l.map Node.addr) :
    total (Function.update sizes p keySize) size l = total sizes size l := by
  refine congrArg List.sum (List.map_congr_left fun u hu => ?_)
  have hne : u.addr ≠ p := fun heq => h (heq ▸ List.mem_map_of_mem hu)
  rw [Function.update_of_ne hne]

theorem total_le {size : Nat} {l : List (Node κ)}
    (h : forall u, u ∈ l -> sizeofElement + sizes u.addr + size < 2 ^ 32) :
    total sizes size l <= l.length * (2 ^ 32 - 1) := by
  induction l with
  | nil => exact Nat.zero_le _
  | cons u l ih =>
      have hu := h u (List.mem_cons_self ..)
      have hl := ih fun w hw => h w (List.mem_cons_of_mem u hw)
      rw [total_cons, List.length_cons, Nat.succ_mul, Nat.add_comm]
      exact Nat.add_le_add hl (Nat.le_sub_one_of_lt hu)

structure Affords (malloc : Malloc κ) (keySize : Nat) (tree : RbTree κ) : Prop where
  /-- The allocation succeeds, with the elements there are or fewer. -/
  succeeds : forall heap, (forall q, tree.nodes.heap q = none -> heap q = none) ->
    malloc heap ≠ NULL
  small : sizeofElement + keySize + tree.size < 2 ^ 32

/-- `allocated` counts every element once, and is within the memory limit, unless
one element alone takes more. -/
structure Accounted (sizes : Ptr -> Nat) (tree : RbTree κ) (t : ColourTree (Node κ)) : Prop where
  allocated_eq : tree.allocated = total sizes tree.size t.toList
  small : forall u, u ∈ t.toList -> sizeofElement + sizes u.addr + tree.size < 2 ^ 32
  limit : tree.memoryLimit ≠ 0 -> tree.elements <= 1 ∨ tree.allocated <= tree.memoryLimit

namespace Accounted

theorem allocated_le (h : Accounted sizes tree t) (hfew : t.size < 2 ^ 32) :
    tree.allocated <= (2 ^ 32 - 1) * (2 ^ 32 - 1) := by
  have hle := total_le h.small
  rw [ColourTree.length_toList, ← h.allocated_eq] at hle
  exact Nat.le_trans hle (Nat.mul_le_mul_right _ (Nat.le_sub_one_of_lt hfew))

theorem charge_eq (h : Accounted sizes tree t) (hfew : t.size < 2 ^ 32)
    (hblock : sizeofElement + keySize + tree.size < 2 ^ 32) :
    tree.charge keySize = tree.allocated + (sizeofElement + keySize + tree.size) := by
  have hle := h.allocated_le hfew
  rw [RbTree.charge, allocSize, uint_of_lt hblock, sizet, Nat.mod_eq_of_lt]
  omega

theorem empty {s : Nodes κ} {log : List (Event κ)} : Accounted sizes
    { tree with nodes := s, elements := 0, allocated := 0, log := log } .nil where
  allocated_eq := rfl
  small := fun u hu => by cases hu
  limit := fun _ => Or.inl (Nat.zero_le 1)

theorem congr {s : Nodes κ} (h : Accounted sizes tree t)
    (hplaces : t'.toList.map Node.place = t.toList.map Node.place) :
    Accounted sizes { tree with nodes := s } t' where
  allocated_eq := by
    rw [total_congr hplaces]
    exact h.allocated_eq
  small := by
    intro u hu
    have hmem : u.place ∈ t.toList.map Node.place := hplaces ▸ List.mem_map_of_mem hu
    rcases List.mem_map.mp hmem with ⟨w, hw, hplace⟩
    have haddr : w.addr = u.addr := congrArg Prod.fst hplace
    rw [← haddr]
    exact h.small w hw
  limit := h.limit

theorem added {s : Nodes κ} {first rest : List (Node κ)} (h : Accounted sizes tree t)
    (hfew : t.size < 2 ^ 32) (hblock : sizeofElement + keySize + tree.size < 2 ^ 32)
    (hroom : ¬tree.Exceeds keySize) (ht : t.toList = first ++ rest)
    (ht' : t'.toList = first ++ ⟨p, key, 1⟩ :: rest) (hnodup : (addrs t').Nodup) :
    Accounted (Function.update sizes p keySize)
      { tree with
        nodes := s
        allocated := tree.charge keySize
        elements := uint (tree.elements + 1) } t' := by
  have hapart : p ∉ t.toList.map Node.addr := by
    rw [addrs, ht', List.map_append, List.map_cons] at hnodup
    have hcons := List.nodup_cons.mp (List.perm_middle.nodup_iff.mp hnodup)
    rw [ht, List.map_append]
    exact hcons.left
  constructor
  · have htotal := total_update sizes keySize tree.size hapart
    show tree.charge keySize = total (Function.update sizes p keySize) tree.size t'.toList
    rw [h.charge_eq hfew hblock, h.allocated_eq, ← htotal, ht, ht', total_append, total_append,
      total_cons, Function.update_self]
    omega
  · intro u hu
    show sizeofElement + Function.update sizes p keySize u.addr + tree.size < 2 ^ 32
    by_cases hnew : u.addr = p
    · rw [hnew, Function.update_self]
      exact hblock
    · rw [Function.update_of_ne hnew]
      refine h.small u ?_
      rw [ht'] at hu
      rw [ht]
      rcases List.mem_append.mp hu with hu | hu
      · exact List.mem_append_left _ hu
      · rcases List.mem_cons.mp hu with rfl | hu
        · exact absurd rfl hnew
        · exact List.mem_append_right _ hu
  · intro hlimit
    show uint (tree.elements + 1) <= 1 ∨ tree.charge keySize <= tree.memoryLimit
    by_cases hempty : tree.elements = 0
    · rw [hempty]
      exact Or.inl (Nat.le_refl 1)
    · exact Or.inr (Nat.le_of_not_lt fun hlt => hroom ⟨hlimit, hempty, hlt⟩)

theorem insert (hstep : InsertStep malloc key keySize tree t p tree' t')
    (h : Accounted sizes tree t) (hfew : t.size < 2 ^ 32) (hnodup : (addrs t').Nodup)
    (hnew : (forall u, u ∈ t.toList -> tree.compare u.key key ≠ 0) ->
      Affords malloc keySize tree ∧ sizes' = Function.update sizes p keySize)
    (hold : (exists u, u ∈ t.toList ∧ tree.compare u.key key = 0) -> sizes' = sizes) :
    Accounted sizes' tree' t' := by
  induction hstep with
  | met hu hequal hplaces =>
      rw [hold ⟨_, hu, hequal⟩]
      exact h.congr hplaces
  | full habsent hroom hfull =>
      exact absurd hfull ((hnew habsent).left.succeeds _ fun _ hq => hq)
  | added habsent hroom hp hne ht ht' =>
      rcases hnew habsent with ⟨haffords, rfl⟩
      exact h.added hfew haffords.small hroom ht ht' hnodup
  | restarted habsent hexceeds hfewer hagain ih =>
      rcases hnew habsent with ⟨haffords, hsizes⟩
      refine ih empty (Nat.two_pow_pos 32) hnodup
        (fun _ => ⟨⟨fun heap hheap => ?_, haffords.small⟩, hsizes⟩)
        fun hthere => ?_
      · exact haffords.succeeds heap fun q hq => hheap q (hfewer q hq)
      · rcases hthere with ⟨u, hu, _⟩
        cases hu

theorem le_allocated (h : Accounted sizes tree t) {u : Node κ} (hu : u ∈ t.toList) :
    sizeofElement + sizes u.addr + tree.size <= tree.allocated := by
  rcases List.append_of_mem hu with ⟨first, rest, ht⟩
  rw [h.allocated_eq, ht, total_append, total_cons]
  omega

theorem delete {r : Nat} (hstep : DeleteStep key keySize tree t r tree' t')
    (hvalid : Valid tree t) (h : Accounted sizes tree t) (hfew : t.size < 2 ^ 32)
    (hsize : forall u, u ∈ t.toList -> tree.compare u.key key = 0 -> sizes u.addr = keySize) :
    Accounted sizes tree' t' := by
  cases hstep with
  | kept hkept => exact h.congr rfl
  | @removed t' s first rest u hdelete hequal ht ht' =>
      have hu : u ∈ t.toList := by
        rw [ht]
        exact List.mem_append_right _ (List.mem_cons_self ..)
      have hsub : forall w, w ∈ t'.toList -> w ∈ t.toList := by
        have hsublist := (List.sublist_cons_self u rest).append_left first
        rw [← ht, ← ht'] at hsublist
        exact fun w hw => hsublist.subset hw
      have hle := h.le_allocated hu
      rw [hsize u hu hequal, Nat.add_right_comm] at hle
      have hpos : 0 < t.size := by
        rw [← ColourTree.length_toList]
        exact List.length_pos_of_mem hu
      have helements : uint (tree.elements + (2 ^ 32 - 1)) = tree.elements - 1 := by
        rw [hvalid.elements_eq, uint_of_lt hfew, uint_pred hpos hfew]
      have hallocated : sizetSub tree.allocated (sizeofElement + tree.size + keySize) =
          tree.allocated - (sizeofElement + tree.size + keySize) := by
        have hbound := h.allocated_le hfew
        exact sizetSub_of_le hle (by omega)
      rw [helements, hallocated]
      constructor
      · show tree.allocated - _ = total sizes tree.size t'.toList
        rw [h.allocated_eq, ht, ht', total_append, total_append, total_cons, hsize u hu hequal]
        omega
      · exact fun w hw => h.small w (hsub w hw)
      · intro hlimit
        show tree.elements - 1 <= 1 ∨ _ <= tree.memoryLimit
        rcases h.limit hlimit with hone | hwithin
        · exact Or.inl (Nat.le_trans (Nat.sub_le _ _) hone)
        · exact Or.inr (Nat.le_trans (Nat.sub_le _ _) hwithin)

end Accounted

/-!
## Outcome of an insertion
-/

def OverLimit (tree : RbTree κ) (t : ColourTree (Node κ)) (keySize : Nat) : Prop :=
  tree.memoryLimit ≠ 0 ∧ t ≠ .nil ∧
    tree.memoryLimit < tree.allocated + (sizeofElement + keySize + tree.size)

theorem size_eq_zero_iff {t : ColourTree (Node κ)} : t.size = 0 <-> t = .nil := by
  cases t with
  | nil => exact ⟨fun _ => rfl, fun _ => rfl⟩
  | node c l v r =>
      constructor
      · intro hzero
        cases hzero
      · intro hnil
        cases hnil

theorem Accounted.exceeds_iff (h : Accounted sizes tree t) (hvalid : Valid tree t)
    (hfew : t.size < 2 ^ 32) (hblock : sizeofElement + keySize + tree.size < 2 ^ 32) :
    tree.Exceeds keySize <-> OverLimit tree t keySize := by
  rw [RbTree.Exceeds, OverLimit, h.charge_eq hfew hblock, hvalid.elements_eq, uint_of_lt hfew,
    ne_eq t.size, size_eq_zero_iff]

/-- Within the limit a call does not enter itself. -/
theorem rbtreeInsertWith_once (hroom : ¬tree.Exceeds keySize) (fuel : Nat) :
    rbtreeInsertWith malloc key keySize (fuel + 1) tree =
      rbtreeInsertWith malloc key keySize 1 tree := by
  rw [rbtreeInsertWith, rbtreeInsertWith]
  cases hplace : findPlace tree key with
  | error fault => rfl
  | ok place =>
      rcases place with ⟨s, parent, element⟩
      have hover : ¬RbTree.overLimit { tree with
          nodes := s
          allocated := sizet (tree.allocated + allocSize { tree with nodes := s } keySize) } =
            true := mt RbTree.overLimit_charged.mp hroom
      simp only [bind, Except.bind, if_neg hover]

structure Outcome (malloc : Malloc κ) (key : κ) (keySize : Nat) (tree : RbTree κ)
    (t : ColourTree (Node κ)) (p : Ptr) (tree' : RbTree κ) (t' : ColourTree (Node κ)) : Prop where
  /-- Every earlier element is kept, in one pass. -/
  kept : ¬OverLimit tree t keySize ->
    rbtreeInsertWith malloc key keySize 1 tree = .ok (p, tree') ∧
      exists first rest, t.toList = first ++ rest ∧ t'.toList = first ++ ⟨p, key, 1⟩ :: rest
  /-- Only the new element is left. -/
  alone : OverLimit tree t keySize -> t'.toList = [⟨p, key, 1⟩]

theorem Accounted.outcome (h : Accounted sizes tree t) (hvalid : Valid tree t)
    (hcompare : TotalPreorder tree.compare) (hfew : t.size < 2 ^ 32)
    (hmalloc : FreshMalloc malloc) (haffords : Affords malloc keySize tree)
    (habsent : forall u, u ∈ t.toList -> tree.compare u.key key ≠ 0) :
    exists p tree' t', rbtreeInsert tree key keySize malloc = .ok (p, tree') ∧
      Rep tree'.nodes t' ∧ Outcome malloc key keySize tree t p tree' t' := by
  have hheight := hvalid.redBlack.height_le hfew
  have hlow : 62 < MAX_rbtree_HEIGHT := by decide
  rcases rbtreeInsert_spec keySize hcompare hvalid hmalloc with
    ⟨_, hhigh⟩ | ⟨p, tree', _, hinsert, _⟩
  · omega
  rcases rbtreeInsertWith_step hcompare hvalid hmalloc hinsert with ⟨t', hvalid', _, hstep⟩
  have hexceeds := h.exceeds_iff hvalid hfew haffords.small
  refine ⟨p, tree', t', hinsert, hvalid'.rep, ?_⟩
  cases hstep with
  | met hu hequal hplaces => exact absurd hequal (habsent _ hu)
  | full _ hroom hfull => exact absurd hfull (haffords.succeeds _ fun _ hq => hq)
  | added _ hroom hp hne ht ht' =>
      constructor
      · intro _
        rw [rbtreeInsert, rbtreeInsertWith_once hroom] at hinsert
        exact ⟨hinsert, _, _, ht, ht'⟩
      · exact fun hover => absurd (hexceeds.mpr hover) hroom
  | restarted _ hover hfewer hagain =>
      constructor
      · exact fun hwithin => absurd (hexceeds.mp hover) hwithin
      · intro _
        rcases (hagain.of_nil rfl).right with ⟨hfull, _⟩ | ⟨_, halone⟩
        · exact absurd hfull (haffords.succeeds _ hfewer)
        · exact halone

end RBTree
end MyLibs
