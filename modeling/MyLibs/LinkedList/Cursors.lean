import MyLibs.LinkedList.Runs
import MyLibs.LinkedList.Walks

/-!
# Cursors

`my_list_begin`, `my_list_iter_next` and their counterparts, and the loop a caller writes
with them. The loop steps to the neighbour of an item before it deletes the item.
-/

namespace MyLibs
namespace LinkedList

open Foundation

def myListBegin (mem : Memory) (list : Ptr) : Option Ptr :=
  if list = NULL then some NULL else (mem.lists list).map MyList.head

def myListEnd : Ptr :=
  NULL

def myListRbegin (mem : Memory) (list : Ptr) : Option Ptr :=
  if list = NULL then some NULL else (mem.lists list).map MyList.tail

def myListRend : Ptr :=
  NULL

def myListIterNext (mem : Memory) (iter : Ptr) : Option Ptr :=
  if iter = NULL then some NULL else (mem.items iter).map MyListIter.next

def myListIterPrev (mem : Memory) (iter : Ptr) : Option Ptr :=
  if iter = NULL then some NULL else (mem.items iter).map MyListIter.prev

/-!
## The two directions
-/

namespace Way

def start : Way -> Memory -> Ptr -> Option Ptr
  | .foreach => myListBegin
  | .rforeach => myListRbegin

def stop : Way -> Ptr
  | .foreach => myListEnd
  | .rforeach => myListRend

def iterStep : Way -> Memory -> Ptr -> Option Ptr
  | .foreach => myListIterNext
  | .rforeach => myListIterPrev

def visits {α : Type _} : Way -> List α -> List α
  | .foreach, items => items
  | .rforeach, items => items.reverse

def around {α : Type _} : Way -> List α -> List α -> List α
  | .foreach, passed, ahead => passed ++ ahead
  | .rforeach, passed, ahead => ahead.reverse ++ passed

def pass {α : Type _} : Way -> List α -> α -> List α
  | .foreach, passed, c => passed ++ [c]
  | .rforeach, passed, c => c :: passed

end Way

def cursorLoop (way : Way) (unwanted : Ptr -> Bool) :
    Nat -> Ptr -> Memory -> Option (List Ptr × Memory)
  | 0, _, _ => none
  | turns + 1, iter, mem =>
      if iter = way.stop then
        some ([], mem)
      else do
        let item <- mem.items iter
        let next <- way.iterStep mem iter
        let mem <- if unwanted item.data then myListIterDelete mem iter else some mem
        let (seen, mem) <- cursorLoop way unwanted turns next mem
        some (item.data :: seen, mem)

variable {mem mem' : Memory} {list : Ptr} {cells passed ahead : List (Ptr × Ptr)} {c : Ptr × Ptr}
  {way : Way} {unwanted : Ptr -> Bool}

namespace Way

theorem around_pass {α : Type _} {passed ahead : List α} {c : α} :
    way.around (way.pass passed c) ahead = way.around passed (c :: ahead) := by
  cases way with
  | foreach => exact List.append_assoc ..
  | rforeach =>
      show ahead.reverse ++ c :: passed = (c :: ahead).reverse ++ passed
      rw [List.reverse_cons, List.append_assoc]
      rfl

theorem stop_eq : way.stop = NULL := by
  cases way <;> rfl

end Way

theorem Holds.item_around (h : Holds mem list (way.around passed (c :: ahead))) :
    exists item, mem.items c.1 = some item ∧ item.data = c.2 ∧
      way.iterStep mem c.1 = some (headOf ahead) := by
  cases way with
  | foreach =>
      have hcells : Holds mem list (passed ++ c :: ahead) := h
      refine ⟨_, hcells.item_at, rfl, ?_⟩
      show myListIterNext mem c.1 = _
      rw [myListIterNext, if_neg (hcells.addr_ne (by simp)), hcells.item_at]
      rfl
  | rforeach =>
      have hcells : Holds mem list (ahead.reverse ++ c :: passed) := by
        have hsplit : Way.around .rforeach passed (c :: ahead) = ahead.reverse ++ c :: passed := by
          show (c :: ahead).reverse ++ passed = _
          rw [List.reverse_cons, List.append_assoc]
          rfl
        rw [← hsplit]
        exact h
      have htail : tailOf ahead.reverse = headOf ahead := by
        rw [tailOf, addrs, List.map_reverse, ← headD_reverse, List.reverse_reverse]
        rfl
      refine ⟨_, hcells.item_at, rfl, ?_⟩
      show myListIterPrev mem c.1 = _
      rw [myListIterPrev, if_neg (hcells.addr_ne (by simp)), hcells.item_at, ← htail]
      rfl

theorem Holds.delete_around (h : Holds mem list (way.around passed (c :: ahead))) :
    exists mem', myListIterDelete mem c.1 = some mem' ∧
      Holds mem' list (way.around passed ahead) ∧ mem'.log = c.1 :: mem.log := by
  have hsplit : exists first rest, way.around passed (c :: ahead) = first ++ c :: rest ∧
      way.around passed ahead = first ++ rest := by
    cases way with
    | foreach => exact ⟨passed, ahead, rfl, rfl⟩
    | rforeach => exact ⟨ahead.reverse, passed, by simp [Way.around], rfl⟩
  rcases hsplit with ⟨first, rest, hbefore, hafter⟩
  rw [hbefore] at h
  rcases myListIterDelete_spec h with ⟨mem', hdelete, hshrunk⟩
  rw [hafter]
  exact ⟨mem', hdelete, hshrunk.holds, hshrunk.log_eq⟩

theorem Holds.loop (h : Holds mem list (way.around passed ahead)) {turns : Nat}
    (hturns : ahead.length < turns) :
    exists mem', cursorLoop way unwanted turns (headOf ahead) mem =
        some (ahead.map Prod.snd, mem') ∧
      Holds mem' list (way.around passed (ahead.filter fun c => !unwanted c.2)) ∧
      mem'.log = (addrs (ahead.filter fun c => unwanted c.2)).reverse ++ mem.log := by
  induction ahead generalizing passed mem turns with
  | nil =>
      cases turns with
      | zero => cases hturns
      | succ turns =>
          refine ⟨mem, ?_, h, rfl⟩
          rw [cursorLoop, if_pos (show headOf [] = way.stop from way.stop_eq.symm)]
          rfl
  | cons c ahead ih =>
      cases turns with
      | zero => cases hturns
      | succ turns =>
          have hrest : ahead.length < turns := Nat.lt_of_succ_lt_succ hturns
          rcases h.item_around with ⟨item, hitem, hdata, hstep⟩
          have hne : headOf (c :: ahead) ≠ way.stop := by
            rw [way.stop_eq]
            apply h.addr_ne
            cases way <;> simp [Way.around]
          rw [cursorLoop, if_neg hne]
          show exists mem', ((mem.items c.1).bind fun item => _) = _ ∧ _
          rw [hitem, Option.bind_some, show way.iterStep mem (headOf (c :: ahead)) = _ from hstep,
            hdata]
          cases hwanted : unwanted c.2 with
          | true =>
              rcases h.delete_around with ⟨mem₁, hdelete, hholds, hlog⟩
              rcases ih hholds hrest with ⟨mem₂, hloop, hleft, hfreed⟩
              refine ⟨mem₂, ?_, ?_, ?_⟩
              · simp only [Option.bind_eq_bind, Option.bind_some, if_true,
                  show myListIterDelete mem (headOf (c :: ahead)) = _ from hdelete, hloop]
                rfl
              · simpa [hwanted] using hleft
              · rw [hfreed, hlog]
                simp [hwanted, addrs]
          | false =>
              rw [← Way.around_pass] at h
              rcases ih h hrest with ⟨mem₁, hloop, hleft, hfreed⟩
              refine ⟨mem₁, ?_, ?_, ?_⟩
              · simp only [Option.bind_eq_bind, Option.bind_some, Bool.false_eq_true, if_false,
                  hloop]
                rfl
              · rw [Way.around_pass] at hleft
                simpa [hwanted] using hleft
              · rw [hfreed]
                simp [hwanted]

theorem Holds.start_eq (h : Holds mem list cells) :
    way.start mem list = some (headOf (way.visits cells)) := by
  cases way with
  | foreach =>
      show myListBegin mem list = _
      rw [myListBegin, if_neg h.list_ne, h.header]
      rfl
  | rforeach =>
      show myListRbegin mem list = _
      rw [myListRbegin, if_neg h.list_ne, h.header]
      show some (tailOf cells) = some ((addrs cells.reverse).headD NULL)
      rw [addrs, List.map_reverse, headD_reverse]
      rfl

end LinkedList
end MyLibs
