import MyLibs.RBTree.Neighbours
import MyLibs.RBTree.Traversals

/-!
# Scans

A caller looks for a key and goes on from there with `rbtree_search_next` until there
is nothing left. Each mode of `rbtree_search_key` has the direction in which this
reads a range: the modes that look for the next element go up, those that look for
the previous one go down.
-/

namespace MyLibs
namespace RBTree

open Foundation

section Lists

variable {α β : Type}

def HaReadFunc.onward : HaReadFunc -> Dir
  | .HA_READ_BEFORE_KEY => .right
  | .HA_READ_PREFIX_LAST => .right
  | .HA_READ_PREFIX_LAST_OR_PREV => .right
  | _ => .left

def HaReadFunc.scanned (below equal above : List α) : HaReadFunc -> List α
  | .HA_READ_KEY_EXACT => if equal = [] then [] else equal ++ above
  | .HA_READ_KEY_OR_NEXT => equal ++ above
  | .HA_READ_AFTER_KEY => above
  | .HA_READ_BEFORE_KEY => below.reverse
  | .HA_READ_PREFIX_LAST => if equal = [] then [] else (below ++ equal).reverse
  | .HA_READ_PREFIX_LAST_OR_PREV => (below ++ equal).reverse
  | _ => []

def HaReadFunc.order (flag : HaReadFunc) (l : List α) : List α :=
  match flag.onward with
  | .left => l
  | .right => l.reverse

theorem HaReadFunc.head_scanned (flag : HaReadFunc) (below equal above : List α) :
    (flag.scanned below equal above).head? = flag.neighbour below equal above := by
  cases flag with
  | HA_READ_KEY_EXACT =>
      cases equal with
      | nil => rfl
      | cons u equal => rfl
  | HA_READ_PREFIX_LAST =>
      cases equal with
      | nil => rfl
      | cons u equal =>
          have hne : u :: equal ≠ [] := List.cons_ne_nil u equal
          simp only [scanned, neighbour, if_neg hne, List.head?_reverse]
          exact List.getLast?_append_of_ne_nil below hne
  | HA_READ_BEFORE_KEY => exact List.head?_reverse
  | HA_READ_PREFIX_LAST_OR_PREV => exact List.head?_reverse
  | _ => rfl

/-- A scan reads the last elements of its order. -/
theorem HaReadFunc.scanned_suffix (flag : HaReadFunc) (below equal above : List α) :
    flag.scanned below equal above <:+ flag.order (below ++ equal ++ above) := by
  have hup : equal ++ above <:+ below ++ equal ++ above := by
    rw [List.append_assoc]
    exact List.suffix_append below _
  have hdown : (below ++ equal).reverse <:+ (below ++ equal ++ above).reverse :=
    List.reverse_suffix.mpr (List.prefix_append _ above)
  cases flag with
  | HA_READ_KEY_EXACT =>
      rw [scanned]
      split
      · exact List.nil_suffix
      · exact hup
  | HA_READ_KEY_OR_NEXT => exact hup
  | HA_READ_AFTER_KEY => exact List.suffix_append (below ++ equal) above
  | HA_READ_BEFORE_KEY =>
      have hdown := List.prefix_append below (equal ++ above)
      rw [← List.append_assoc] at hdown
      exact List.reverse_suffix.mpr hdown
  | HA_READ_PREFIX_LAST =>
      rw [scanned]
      split
      · exact List.nil_suffix
      · exact hdown
  | HA_READ_PREFIX_LAST_OR_PREV => exact hdown
  | _ => exact List.nil_suffix

theorem suffix_unique {f : α -> β} {l first rest first' rest' : List α} {u u' : α}
    (hnodup : (l.map f).Nodup) (h : l = first ++ u :: rest) (h' : l = first' ++ u' :: rest')
    (hsame : f u = f u') : u :: rest = u' :: rest' := by
  induction first generalizing l first' with
  | nil =>
      cases first' with
      | nil => exact h.symm.trans h'
      | cons v first' =>
          subst h
          cases h'
          have hmem : f u' ∈ (first' ++ u' :: rest').map f :=
            List.mem_map_of_mem (List.mem_append_right _ (List.mem_cons_self ..))
          rw [← hsame] at hmem
          exact absurd hmem (List.nodup_cons.mp hnodup).left
  | cons v first ih =>
      cases first' with
      | nil =>
          subst h'
          cases h
          have hmem : f u ∈ (first ++ u :: rest).map f :=
            List.mem_map_of_mem (List.mem_append_right _ (List.mem_cons_self ..))
          rw [hsame] at hmem
          exact absurd hmem (List.nodup_cons.mp hnodup).left
      | cons v' first' =>
          subst h
          have hrest := (List.cons.inj h').right
          exact ih (List.nodup_cons.mp hnodup).right rfl hrest

end Lists

variable {κ : Type} {t : ColourTree (Node κ)} {tree : RbTree κ}

theorem Ascending.nodup {compare : κ -> κ -> Int} {l : List (Node κ)}
    (hcompare : TotalPreorder compare) (h : Ascending compare l) : (l.map Node.key).Nodup := by
  rw [List.Nodup, List.pairwise_map]
  apply h.imp
  intro u v hlt hsame
  rw [hsame, hcompare.self] at hlt
  exact absurd hlt (Int.lt_irrefl 0)

theorem ordered_eq_order (flag : HaReadFunc) (t : ColourTree (Node κ)) :
    t.ordered flag.onward = flag.order t.toList := by
  rw [HaReadFunc.order]
  cases flag.onward <;> rfl

theorem nodup_order {l : List (Node κ)} (flag : HaReadFunc) (h : (l.map Node.key).Nodup) :
    ((flag.order l).map Node.key).Nodup := by
  rw [HaReadFunc.order]
  cases flag.onward with
  | left => exact h
  | right =>
      rw [List.map_reverse]
      exact List.nodup_reverse.mpr h

theorem Rep.scan {compare : κ -> Int} {below equal above : List (Node κ)}
    {path : SearchPath} (flag : HaReadFunc) (h : Rep tree.nodes t)
    (hnodup : (t.toList.map Node.key).Nodup) (hroom : t.height < path.places)
    (hsplits : Splits compare t.toList below equal above) {turns : Nat}
    (hturns : t.size < turns) :
    exists found, searchKey tree compare path flag = .ok found ∧
      cursorKeys tree flag.onward flag.onward.other turns found =
        .ok ((flag.scanned below equal above).map Node.key) := by
  rcases searchKey_finds flag h hroom hsplits with ⟨found, hsearch, hfinds⟩
  rcases h.traversed.found_keys path turns compare flag hroom hturns with
    ⟨found', hsearch', hrest⟩
  have hfound : found = found' := Except.ok.inj (hsearch.symm.trans hsearch')
  subst hfound
  refine ⟨found, hsearch, ?_⟩
  have hkey := hfinds.key_eq
  rw [← flag.head_scanned] at hkey
  cases hscanned : flag.scanned below equal above with
  | nil =>
      rw [hscanned] at hkey
      cases turns with
      | zero => exact absurd hturns (Nat.not_lt_zero _)
      | succ turns =>
          rcases found with ⟨key, place⟩
          have hnone : key = none := hkey
          rw [hnone]
          rfl
  | cons u scanned =>
      rw [hscanned] at hkey
      rcases hrest u.key hkey flag.onward with ⟨earlier, w, rest, hordered, hw, hkeys⟩
      rcases flag.scanned_suffix below equal above with ⟨skipped, hsuffix⟩
      rw [hscanned, ← hsplits.eq_append] at hsuffix
      rw [ordered_eq_order] at hordered
      rw [hkeys, suffix_unique (nodup_order flag hnodup) hordered hsuffix.symm hw]

variable {settings : Settings κ} {calls : List (Call κ)}

/-- In every reachable tree with less than 2^32 elements, a search and the steps after
it read the range of the mode, in order and each element once: the caller's array
needs no more than `MAX_rbtree_HEIGHT` places. -/
theorem scan_reads_range (h : settings.Proper)
    (hrun : Run Call.Allowed settings.start calls tree) :
    exists t : ColourTree (Node κ), Rep tree.nodes t ∧ (t.size < 2 ^ 32 ->
      forall (compare : κ -> Int) (below equal above : List (Node κ)) (path : SearchPath)
        (flag : HaReadFunc) (turns : Nat), Splits compare t.toList below equal above ->
          MAX_rbtree_HEIGHT <= path.places -> t.size < turns ->
          exists found, searchKey tree compare path flag = .ok found ∧
            cursorKeys tree flag.onward flag.onward.other turns found =
              .ok ((flag.scanned below equal above).map Node.key)) := by
  rcases hrun.valid h with ⟨hsettings, t, hvalid⟩
  refine ⟨t, hvalid.rep, ?_⟩
  intro hsize compare below equal above path flag turns hsplits hplaces hturns
  have hcompare : TotalPreorder settings.start.compare := h.compare
  rw [← hsettings.compare_eq] at hcompare
  have hheight := hvalid.redBlack.height_le hsize
  have henough : 62 < MAX_rbtree_HEIGHT := by decide
  exact hvalid.rep.scan flag (hvalid.ascending.nodup hcompare) (by omega) hsplits hturns

theorem scan_reads_range_shortRun : exists tree,
    Run Call.Allowed integerSettings.start shortRun tree ∧
      exists t : ColourTree (Node Int), Rep tree.nodes t ∧ (t.size < 2 ^ 32 ->
        exists found, searchKey tree (fun _ => 0)
            ⟨MAX_rbtree_HEIGHT, fun _ => NULL, none⟩ .HA_READ_PREFIX_LAST_OR_PREV = .ok found ∧
          cursorKeys tree .right .left (t.size + 1) found =
            .ok (t.toList.reverse.map Node.key)) := by
  rcases shortRun_run with ⟨tree, hrun⟩
  rcases scan_reads_range integerSettings_proper hrun with ⟨t, hrep, hscan⟩
  refine ⟨tree, hrun, t, hrep, fun hsize => ?_⟩
  exact hscan hsize (fun _ => 0) [] t.toList [] ⟨MAX_rbtree_HEIGHT, fun _ => NULL, none⟩
    .HA_READ_PREFIX_LAST_OR_PREV (t.size + 1) ⟨by simp, by simp, by simp, by simp⟩
    (Nat.le_refl _) (Nat.lt_succ_self _)

end RBTree
end MyLibs
