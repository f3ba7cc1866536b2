import MyLibs.Foundation.EditedWalk
import MyLibs.LinkedList.Edits

/-!
# Walks whose callback edits the list

`my_list_foreach` and `my_list_rforeach` with a callback that deletes and inserts
items.
-/

namespace MyLibs
namespace LinkedList

open Foundation

section Definitions

variable {τ ρ : Type}

def recordedWalk (way : Way) (turns : Nat) (mem : Memory) (list : Ptr) (func : MyListFunc τ)
    (note : τ -> Ptr -> Memory -> ρ) (own : τ) : List (Turn Ptr ρ) :=
  match mem.lists list with
  | none => []
  | some header =>
      ((cursor way.follow).recorded func note turns (way.first header) own mem).1

def Way.order : Way -> List Ptr -> List Ptr
  | .foreach, items => items
  | .rforeach, items => items.reverse

def Inserted (start gone : List Ptr) (p : Ptr) : Prop :=
  ¬(p ∈ start ∧ p ∉ gone)

end Definitions

variable {τ : Type} {mem mem' entry : Memory} {list cur p q : Ptr} {way : Way} {call : Call}
  {deleted : Bool} {cells kept : List (Ptr × Ptr)} {start gone passed ahead : List Ptr}

/-!
## Orders
-/

theorem mem_order (way : Way) (items : List Ptr) : q ∈ way.order items <-> q ∈ items := by
  cases way with
  | foreach => exact Iff.rfl
  | rforeach => exact List.mem_reverse

theorem order_filter (way : Way) (f : Ptr -> Bool) (items : List Ptr) :
    way.order (items.filter f) = (way.order items).filter f := by
  cases way with
  | foreach => rfl
  | rforeach => exact List.filter_reverse.symm

theorem order_nodup (way : Way) {items : List Ptr} (h : items.Nodup) : (way.order items).Nodup := by
  cases way with
  | foreach => exact h
  | rforeach => exact List.nodup_reverse.mpr h

theorem order_insert (way : Way) (first rest : List (Ptr × Ptr)) (c : Ptr × Ptr) :
    exists before behind, way.order (addrs (first ++ rest)) = before ++ behind ∧
      way.order (addrs (first ++ c :: rest)) = before ++ c.1 :: behind := by
  cases way with
  | foreach => exact ⟨addrs first, addrs rest, addrs_append, addrs_append⟩
  | rforeach =>
      refine ⟨(addrs rest).reverse, (addrs first).reverse, ?_, ?_⟩
      · rw [addrs_append]
        exact List.reverse_append
      · rw [addrs_append]
        show (addrs first ++ c.1 :: addrs rest).reverse = _
        simp

theorem insert_around {before behind : List Ptr} (new : Ptr)
    (h : before ++ behind = passed ++ cur :: ahead) :
    exists passed' ahead', before ++ new :: behind = passed' ++ cur :: ahead' ∧
      (ahead' = ahead ∨ exists first rest, ahead = first ++ rest ∧
        ahead' = first ++ new :: rest) := by
  rcases List.append_eq_append_iff.mp h with ⟨middle, hpassed, hbehind⟩ | ⟨middle, hbefore, hcur⟩
  · refine ⟨before ++ new :: middle, ahead, ?_, Or.inl rfl⟩
    rw [hbehind, List.append_assoc, List.cons_append]
  · cases middle with
    | nil =>
        refine ⟨before ++ [new], ahead, ?_, Or.inl rfl⟩
        have hbehind : cur :: ahead = behind := hcur
        rw [← hbehind, List.append_assoc]
        rfl
    | cons q middle =>
        rcases List.cons.inj hcur with ⟨hq, hahead⟩
        refine ⟨passed, middle ++ new :: behind, ?_, Or.inr ⟨middle, behind, hahead, rfl⟩⟩
        rw [hbefore, hq, List.append_assoc, List.cons_append]

theorem Holds.follow_eq (h : Holds mem list cells)
    (horder : way.order (addrs cells) = passed ++ p :: ahead) {item : MyListIter}
    (hitem : mem.items p = some item) : way.follow item = ahead.headD NULL := by
  cases way with
  | foreach =>
      rcases h.item_of_split horder with ⟨data, hitem'⟩
      rw [hitem] at hitem'
      cases hitem'
      rfl
  | rforeach =>
      have hback : addrs cells = ahead.reverse ++ p :: passed.reverse := by
        rw [← List.reverse_reverse (addrs cells)]
        show (Way.order .rforeach (addrs cells)).reverse = _
        rw [horder]
        simp
      rcases h.item_of_split hback with ⟨data, hitem'⟩
      rw [hitem] at hitem'
      cases hitem'
      show ahead.reverse.getLastD NULL = ahead.headD NULL
      rw [← headD_reverse, List.reverse_reverse]

/-!
## Changes
-/

theorem account_append (cells : List (Ptr × Ptr)) (first rest : List Change) :
    account cells (first ++ rest) = account (account cells first) rest :=
  List.foldl_append

theorem deletedBy_append (first rest : List Change) :
    deletedBy (first ++ rest) = deletedBy first ++ deletedBy rest :=
  List.filterMap_append

theorem insertedBy_append (first rest : List Change) :
    insertedBy (first ++ rest) = insertedBy first + insertedBy rest :=
  List.countP_append

/-- What is ahead after some changes: what has been ahead from the start and is not
deleted, in the same order. -/
structure Shifts (start gone : List Ptr) (changes : List Change) (ahead ahead' : List Ptr) :
    Prop where
  length_le : ahead'.length <= ahead.length + insertedBy changes
  left_eq : Cursor.left start (gone ++ deletedBy changes) ahead' =
    Cursor.left start (gone ++ deletedBy changes) ahead

theorem Shifts.refl (start gone ahead : List Ptr) : Shifts start gone [] ahead ahead :=
  ⟨Nat.le_refl _, rfl⟩

theorem Shifts.trans {first rest : List Change} {ahead₁ ahead₂ : List Ptr}
    (h : Shifts start gone first ahead ahead₁)
    (h' : Shifts start (gone ++ deletedBy first) rest ahead₁ ahead₂) :
    Shifts start gone (first ++ rest) ahead ahead₂ where
  length_le := by
    have hfirst := h.length_le
    have hrest := h'.length_le
    rw [insertedBy_append]
    omega
  left_eq := by
    rw [deletedBy_append, ← List.append_assoc, h'.left_eq, ← Cursor.filter_left, h.left_eq,
      Cursor.filter_left]

theorem Shifts.insert {c : Ptr × Ptr} (hnew : ¬(c.1 ∈ start ∧ c.1 ∉ gone)) {ahead' : List Ptr}
    (h : ahead' = ahead ∨ exists first rest, ahead = first ++ rest ∧
      ahead' = first ++ c.1 :: rest) : Shifts start gone [.insert c] ahead ahead' := by
  have hgone : gone ++ deletedBy [.insert c] = gone := List.append_nil gone
  rcases h with heq | ⟨first, rest, hahead, hahead'⟩
  · exact ⟨by rw [heq]; exact Nat.le_add_right _ _, by rw [heq]⟩
  · rw [hahead, hahead']
    constructor
    · simp [insertedBy]
      omega
    · rw [hgone, Cursor.left_append, Cursor.left_append]
      congr 1
      exact List.filter_cons_of_neg (by simpa using hnew)

theorem Shifts.delete (start gone ahead : List Ptr) (p : Ptr) :
    Shifts start gone [.delete p] ahead (ahead.filter fun q => q ≠ p) where
  length_le := Nat.le_trans (List.length_filter_le ..) (Nat.le_add_right _ _)
  left_eq := by
    have hfilter : (ahead.filter fun q => q ≠ p) = ahead.filter fun q => q ∉ [p] :=
      List.filter_congr fun q _ => by simp
    rw [hfilter]
    exact Cursor.left_filter start ahead fun q hq => List.mem_append_right _ hq

theorem Shifts.defer (start gone ahead : List Ptr) (p : Ptr) :
    Shifts start gone [.delete p] ahead ahead :=
  ⟨Nat.le_add_right _ _, rfl⟩

/-!
## The calls of one turn
-/

def remaining (cur : Ptr) (deleted : Bool) (cells : List (Ptr × Ptr)) : List (Ptr × Ptr) :=
  if deleted then cells.filter fun c => c.1 ≠ cur else cells

structure Standing (list : Ptr) (way : Way) (start gone : List Ptr) (kept : List (Ptr × Ptr))
    (cur : Ptr) (deleted : Bool) (cells : List (Ptr × Ptr)) (passed ahead : List Ptr)
    (mem : Memory) : Prop where
  visiting : Visiting list cells cur deleted mem
  order_eq : way.order (addrs cells) = passed ++ cur :: ahead
  present : forall q, q ∈ start -> q ∉ gone -> q ∈ addrs cells
  kept : (remaining cur deleted cells).Perm kept
  gone_cur : deleted = true -> cur ∈ gone

theorem Standing.cur_mem
    (h : Standing list way start gone kept cur deleted cells passed ahead mem) :
    cur ∈ addrs cells := by
  rw [← mem_order way, h.order_eq]
  exact List.mem_append_right _ (List.mem_cons_self ..)

theorem remaining_insert {first rest : List (Ptr × Ptr)} {c : Ptr × Ptr} (hne : c.1 ≠ cur) :
    (remaining cur deleted (first ++ c :: rest)).Perm
      (c :: remaining cur deleted (first ++ rest)) := by
  cases deleted with
  | false => exact List.perm_middle
  | true =>
      have hkeep : ((first ++ c :: rest).filter fun d => d.1 ≠ cur) =
          (first.filter fun d => d.1 ≠ cur) ++ c :: rest.filter fun d => d.1 ≠ cur := by
        rw [List.filter_append, List.filter_cons_of_pos (by simpa using hne)]
      have hrest : ((first ++ rest).filter fun d => d.1 ≠ cur) =
          (first.filter fun d => d.1 ≠ cur) ++ rest.filter fun d => d.1 ≠ cur :=
        List.filter_append ..
      simp only [remaining, if_true, hkeep, hrest]
      exact List.perm_middle

theorem remaining_delete (cells : List (Ptr × Ptr)) (p : Ptr) :
    remaining cur deleted (cells.filter fun c => c.1 ≠ p) =
      (remaining cur deleted cells).filter fun c => c.1 ≠ p := by
  cases deleted with
  | false => rfl
  | true =>
      simp only [remaining, if_true, List.filter_filter]
      exact List.filter_congr fun c _ => Bool.and_comm ..

theorem Standing.insert {block : Block} {data : Ptr}
    (h : Standing list way start gone kept cur deleted cells passed ahead mem)
    (hpermitted : call.Permitted entry mem list)
    (hinsertion : call.insertion = some (block, data)) :
    exists answer mem' cells' passed' ahead', call.apply mem list = some (answer, mem') ∧
      Standing list way start (gone ++ deletedBy (call.changes mem mem'))
        (account kept (call.changes mem mem')) cur deleted cells' passed' ahead' mem' ∧
      Shifts start gone (call.changes mem mem') ahead ahead' := by
  rcases h.visiting.insert hpermitted hinsertion h.cur_mem with
    ⟨answer, mem', cells', hcall, hvisiting, ⟨hsame, hchanges⟩ |
      ⟨hnew, hchanges, first, rest, hsplit, hinserted⟩⟩
  · refine ⟨answer, mem', cells', passed, ahead, hcall, ?_⟩
    rw [hchanges]
    subst hsame
    refine ⟨⟨hvisiting, h.order_eq, ?_, h.kept, ?_⟩, Shifts.refl ..⟩
    · intro q hq hgone
      exact h.present q hq (fun hmem => hgone (List.mem_append_left _ hmem))
    · exact fun hdeleted => List.mem_append_left _ (h.gone_cur hdeleted)
  · rcases order_insert way first rest (block.address, data) with
      ⟨before, behind, hold, horder⟩
    rw [← hsplit, h.order_eq] at hold
    rcases insert_around block.address hold.symm with ⟨passed', ahead', haround, hahead⟩
    have hne : block.address ≠ cur := fun heq => hnew (heq ▸ h.cur_mem)
    have hnotOld : ¬(block.address ∈ start ∧ block.address ∉ gone) := fun hold =>
      hnew (h.present _ hold.left hold.right)
    have hgone : gone ++ deletedBy [.insert (block.address, data)] = gone := List.append_nil gone
    refine ⟨answer, mem', cells', passed', ahead', hcall, ?_⟩
    rw [hchanges, hgone]
    refine ⟨⟨hvisiting, ?_, ?_, ?_, h.gone_cur⟩, Shifts.insert hnotOld hahead⟩
    · rw [hinserted, horder, haround]
    · intro q hq hqgone
      rw [hinserted, mem_addrs_insert, ← hsplit]
      exact Or.inr (h.present q hq hqgone)
    · rw [hinserted]
      refine (remaining_insert hne).trans (List.Perm.cons _ ?_)
      rw [← hsplit]
      exact h.kept

theorem Standing.delete
    (h : Standing list way start gone kept cur deleted cells passed ahead mem)
    (hp : p ∈ addrs cells) (hne : p ≠ cur) :
    exists mem', (Call.iterDelete p).apply mem list = some (.nothing, mem') ∧
      Standing list way start (gone ++ [p]) (kept.filter fun c => c.1 ≠ p) cur deleted
        (cells.filter fun c => c.1 ≠ p) (passed.filter fun q => q ≠ p)
        (ahead.filter fun q => q ≠ p) mem' := by
  rcases h.visiting.delete hp hne with ⟨mem', hcall, hvisiting⟩
  refine ⟨mem', hcall, hvisiting, ?_, ?_, ?_, ?_⟩
  · rw [addrs_filter, order_filter, h.order_eq, List.filter_append,
      List.filter_cons_of_pos (by simpa using Ne.symm hne)]
  · intro q hq hgone
    rw [List.mem_append, not_or, List.mem_singleton] at hgone
    rw [addrs_filter, List.mem_filter]
    exact ⟨h.present q hq hgone.left, decide_eq_true hgone.right⟩
  · rw [remaining_delete]
    exact h.kept.filter _
  · exact fun hdeleted => List.mem_append_left _ (h.gone_cur hdeleted)

theorem Standing.defer (h : Standing list way start gone kept cur false cells passed ahead mem) :
    exists mem', (Call.iterDelete cur).apply mem list = some (.nothing, mem') ∧
      Standing list way start (gone ++ [cur]) (kept.filter fun c => c.1 ≠ cur) cur true cells
        passed ahead mem' := by
  rcases h.visiting.defer h.cur_mem with ⟨mem', hcall, hvisiting⟩
  refine ⟨mem', hcall, hvisiting, h.order_eq, ?_, ?_, ?_⟩
  · intro q hq hgone
    exact h.present q hq (fun hmem => hgone (List.mem_append_left _ hmem))
  · exact h.kept.filter _
  · exact fun _ => List.mem_append_right _ (List.mem_singleton_self cur)

theorem Standing.step (h : Standing list way start gone kept cur deleted cells passed ahead mem)
    (hentry : entry.FlagSet cur) (hpermitted : call.Permitted entry mem list) :
    exists answer mem' deleted' cells' passed' ahead',
      call.apply mem list = some (answer, mem') ∧
      Standing list way start (gone ++ deletedBy (call.changes mem mem'))
        (account kept (call.changes mem mem')) cur deleted' cells' passed' ahead' mem' ∧
      Shifts start gone (call.changes mem mem') ahead ahead' := by
  cases hinsertion : call.insertion with
  | some material =>
      rcases h.insert hpermitted hinsertion with ⟨answer, mem', cells', passed', ahead', hresult⟩
      exact ⟨answer, mem', deleted, cells', passed', ahead', hresult⟩
  | none =>
      cases call with
      | iterDelete p =>
          have hp : p ∈ addrs cells :=
            h.visiting.holds.reachable_iff.mp (reachable_unflagged.mpr hpermitted.left)
          by_cases heq : p = cur
          · subst heq
            have hfalse : deleted = false := by
              rcases hpermitted.right hentry with ⟨item, hitem, hset⟩
              rw [h.visiting.flag p item hp hitem] at hset
              by_contra htrue
              rw [if_neg fun hboth => htrue hboth.right] at hset
              exact Int.zero_ne_one hset
            subst hfalse
            rcases h.defer with ⟨mem', hcall, hstanding⟩
            exact ⟨_, mem', true, cells, passed, ahead, hcall, hstanding, Shifts.defer ..⟩
          · rcases h.delete hp heq with ⟨mem', hcall, hstanding⟩
            exact ⟨_, mem', deleted, _, _, _, hcall, hstanding, Shifts.delete ..⟩
      | delete data => exact absurd hpermitted id
      | clear => exact absurd hpermitted id
      | add data block => cases hinsertion
      | prepend data block => cases hinsertion
      | append data block => cases hinsertion
      | lookadd data block => cases hinsertion
      | sortadd func data block => cases hinsertion
      | iterInsert iter data block => cases hinsertion

theorem Standing.calls {calls : List Call}
    (h : Standing list way start gone kept cur deleted cells passed ahead mem)
    (hentry : entry.FlagSet cur) (hlegal : Legal list entry calls mem) :
    exists mem' deleted' cells' passed' ahead', applyEach list calls mem = some mem' ∧
      Standing list way start (gone ++ deletedBy (changesOf list calls mem))
        (account kept (changesOf list calls mem)) cur deleted' cells' passed' ahead' mem' ∧
      Shifts start gone (changesOf list calls mem) ahead ahead' := by
  induction calls generalizing mem gone kept deleted cells passed ahead with
  | nil =>
      refine ⟨mem, deleted, cells, passed, ahead, rfl, ?_, Shifts.refl ..⟩
      have hgone : gone ++ deletedBy [] = gone := List.append_nil gone
      rw [changesOf, hgone]
      exact h
  | cons call calls ih =>
      rcases hlegal with ⟨hpermitted, hrest⟩
      rcases h.step hentry hpermitted with
        ⟨answer, mem₁, deleted₁, cells₁, passed₁, ahead₁, hcall, hstanding₁, hshifts₁⟩
      rcases ih hstanding₁ (hrest answer mem₁ hcall) with
        ⟨mem', deleted', cells', passed', ahead', hcalls, hstanding, hshifts⟩
      have hchanges : changesOf list (call :: calls) mem =
          call.changes mem mem₁ ++ changesOf list calls mem₁ := by
        rw [changesOf, hcall]
      refine ⟨mem', deleted', cells', passed', ahead', ?_, ?_, ?_⟩
      · rw [applyEach, hcall]
        exact hcalls
      · rw [hchanges, deletedBy_append, ← List.append_assoc, account_append]
        exact hstanding
      · rw [hchanges]
        exact hshifts₁.trans hshifts

/-!
## One turn
-/

theorem holds_unflagged_iff : Holds mem list cells <-> Holds mem.unflagged list cells ∧
    forall q item, q ∈ addrs cells -> mem.items q = some item -> item.foreach = 0 := by
  have hlinks : mem.unflagged.links = mem.links := by
    funext q
    simp only [Memory.links, Memory.unflagged, Option.map_map]
    rfl
  have hnone : forall q, mem.unflagged.items q = none <-> mem.items q = none :=
    fun q => unflagged_items_eq_none_iff
  constructor
  · intro h
    refine ⟨⟨h.list_ne, (hnone _).mpr h.null, h.header, ?_, ?_, ?_⟩, ?_⟩
    · rw [hlinks]
      exact h.chain
    · intro c hc
      rcases Option.map_eq_some_iff.mp (h.payload c hc) with ⟨item, hitem, hfields⟩
      simp only [Prod.mk.injEq] at hfields
      rw [Memory.payload, unflagged_items_of_some hitem, ← hfields.left, ← hfields.right.left]
      rfl
    · intro q hq
      exact h.bound q (fun hq' => hq ((hnone q).mpr hq'))
    · intro q item hq hitem
      rcases h.item_unflagged hq with ⟨other, hother, hzero⟩
      rw [hitem] at hother
      cases hother
      exact hzero
  · intro h
    rcases h with ⟨h, hflags⟩
    refine ⟨h.list_ne, (hnone _).mp h.null, h.header, ?_, ?_, ?_⟩
    · rw [← hlinks]
      exact h.chain
    · intro c hc
      rcases Option.map_eq_some_iff.mp (h.payload c hc) with ⟨clean, hclean, hfields⟩
      rcases Option.map_eq_some_iff.mp hclean with ⟨item, hitem, hitem'⟩
      have hzero := hflags c.1 item (List.mem_map.mpr ⟨c, hc, rfl⟩) hitem
      rw [Memory.payload, hitem, ← hfields, ← hitem', Option.map_some, hzero]
      rfl
    · intro q hq
      exact h.bound q (fun hq' => hq ((hnone q).mp hq'))

theorem Holds.arrive (h : Holds mem list cells) (hp : p ∈ addrs cells) :
    exists mem' item, mem.writeItem p (fun item => { item with foreach := 1 }) = some mem' ∧
      mem'.items p = some item ∧ mem'.FlagSet p ∧ Visiting list cells p false mem' := by
  rcases h.item_unflagged hp with ⟨item, hitem, _⟩
  rcases holds_unflagged_iff.mp h with ⟨hholds, hflags⟩
  have hself : Function.update mem.items p (some { item with foreach := 1 }) p =
      some { item with foreach := 1 } := Function.update_self ..
  refine ⟨_, _, writeItem_of_some hitem _, hself, ⟨_, hself, rfl⟩, ?_, ?_⟩
  · rw [unflagged_write hitem]
    exact hholds
  · intro q other hq hother
    have hother' : Function.update mem.items p (some { item with foreach := 1 }) q = some other :=
      hother
    rcases eq_or_ne q p with heq | hne
    · rw [heq, Function.update_self] at hother'
      cases hother'
      rw [if_pos ⟨heq, rfl⟩]
    · rw [Function.update_of_ne hne] at hother'
      rw [if_neg fun hboth => hne hboth.left]
      exact hflags q other hq hother'

structure Between (list : Ptr) (way : Way) (start gone : List Ptr) (kept cells : List (Ptr × Ptr))
    (passed ahead : List Ptr) (mem : Memory) : Prop where
  holds : Holds mem list cells
  order_eq : way.order (addrs cells) = passed ++ ahead
  present : forall q, q ∈ start -> q ∉ gone -> q ∈ addrs cells
  kept : cells.Perm kept

theorem Standing.leave_kept
    (h : Standing list way start gone kept cur false cells passed ahead mem) :
    exists mem', leaveItem way.follow cur mem = some (ahead.headD NULL, mem') ∧
      Between list way start gone kept cells (passed ++ [cur]) ahead mem' := by
  rcases h.visiting.exists_item h.cur_mem with ⟨item, hitem⟩
  have hset : ¬item.foreach = 0 := by
    rw [h.visiting.flag cur item h.cur_mem hitem, if_pos ⟨rfl, rfl⟩]
    exact Int.one_ne_zero
  have hnext : way.follow item = ahead.headD NULL := by
    have hfollow := h.visiting.holds.follow_eq h.order_eq (unflagged_items_of_some hitem)
    cases way with
    | foreach => exact hfollow
    | rforeach => exact hfollow
  refine ⟨{ mem with items := Function.update mem.items cur (some { item with foreach := 0 }) },
    ?_, holds_unflagged_iff.mpr ⟨?_, ?_⟩, ?_, h.present, h.kept⟩
  · rw [leaveItem, hitem]
    simp only [Option.bind_eq_bind, Option.bind_some, if_neg hset, writeItem_of_some hitem,
      Option.map_some, hnext]
  · rw [unflagged_write hitem]
    exact h.visiting.holds
  · intro q other hq hother
    have hother' : Function.update mem.items cur (some { item with foreach := 0 }) q = some other :=
      hother
    rcases eq_or_ne q cur with heq | hne
    · rw [heq, Function.update_self] at hother'
      cases hother'
      rfl
    · rw [Function.update_of_ne hne] at hother'
      rw [h.visiting.flag q other hq hother', if_neg fun hboth => hne hboth.left]
  · rw [h.order_eq, List.append_cons]

theorem Standing.leave_deleted
    (h : Standing list way start gone kept cur true cells passed ahead mem) :
    exists mem', leaveItem way.follow cur mem = some (ahead.headD NULL, mem') ∧
      Between list way start gone kept (cells.filter fun c => c.1 ≠ cur) passed ahead mem' := by
  rcases h.visiting.exists_item h.cur_mem with ⟨item, hitem⟩
  have hflags : forall q other, q ∈ addrs cells -> mem.items q = some other ->
      other.foreach = 0 := by
    intro q other hq hother
    rw [h.visiting.flag q other hq hother, if_neg fun hboth => Bool.noConfusion hboth.right]
  have hholds : Holds mem list cells := holds_unflagged_iff.mpr ⟨h.visiting.holds, hflags⟩
  have hzero : item.foreach = 0 := hflags cur item h.cur_mem hitem
  have hnext : way.follow item = ahead.headD NULL := hholds.follow_eq h.order_eq hitem
  have hallowed : (Call.iterDelete cur).Allowed mem cells := h.cur_mem
  rcases hholds.step hallowed with ⟨mem', hcall, hholds', _⟩
  rcases Option.bind_eq_some_iff.mp hcall with ⟨after, hdelete, hpair⟩
  cases hpair
  have hcells : Call.onSequence cells (.iterDelete cur) = cells.filter fun c => c.1 ≠ cur :=
    eraseP_eq_filter hholds.nodup cur
  rw [hcells] at hholds'
  have hnodup : (passed ++ cur :: ahead).Nodup := by
    rw [← h.order_eq]
    exact order_nodup way hholds.nodup
  have hothers : forall q, q ∈ passed ++ ahead -> q ≠ cur := by
    intro q hq heq
    exact (List.nodup_middle.mp hnodup).notMem (heq ▸ hq)
  refine ⟨mem', ?_, hholds', ?_, ?_, h.kept⟩
  · rw [leaveItem, hitem]
    simp only [Option.bind_eq_bind, Option.bind_some, if_pos hzero, hdelete, Option.map_some, hnext]
  · rw [addrs_filter, order_filter, h.order_eq, List.filter_append,
      List.filter_cons_of_neg (by simp), ← List.filter_append]
    exact List.filter_eq_self.mpr fun q hq => decide_eq_true (hothers q hq)
  · intro q hq hgone
    rw [addrs_filter, List.mem_filter]
    refine ⟨h.present q hq hgone, decide_eq_true ?_⟩
    intro heq
    exact hgone (heq ▸ h.gone_cur rfl)

/-- One turn of the walk: it goes on to the next item that is still there. -/
theorem Between.turn
    (h : Between list way start gone kept cells passed (p :: ahead) mem) (edit : Editor list τ)
    (own : τ) :
    exists changes ret own' mem' cells' passed' ahead',
      (cursor way.follow).noted edit.changes p own mem = some changes ∧
      (cursor way.follow).turn edit.func p own mem =
        some (ret, ahead'.headD NULL, own', mem') ∧
      Between list way start (gone ++ deletedBy changes) (account kept changes) cells' passed'
        ahead' mem' ∧
      Shifts start gone changes ahead ahead' := by
  have hp : p ∈ addrs cells := by
    rw [← mem_order way, h.order_eq]
    exact List.mem_append_right _ (List.mem_cons_self ..)
  rcases h.holds.arrive hp with ⟨mem₁, item, harrive, hitem, hentry, hvisiting⟩
  have hstanding : Standing list way start gone kept p false cells passed ahead mem₁ :=
    ⟨hvisiting, h.order_eq, h.present, h.kept, fun hfalse => Bool.noConfusion hfalse⟩
  rcases hstanding.calls hentry (edit own item.data mem₁).2.2.legal with
    ⟨mem₂, deleted, cells₂, passed₂, ahead', hcalls, hstanding₂, hshifts⟩
  have hleave : exists mem' cells' passed',
      leaveItem way.follow p mem₂ = some (ahead'.headD NULL, mem') ∧
      Between list way start (gone ++ deletedBy (edit.changes own item.data mem₁))
        (account kept (edit.changes own item.data mem₁)) cells' passed' ahead' mem' := by
    cases deleted with
    | false =>
        rcases hstanding₂.leave_kept with ⟨mem', hleave, hbetween⟩
        exact ⟨mem', _, _, hleave, hbetween⟩
    | true =>
        rcases hstanding₂.leave_deleted with ⟨mem', hleave, hbetween⟩
        exact ⟨mem', _, _, hleave, hbetween⟩
  rcases hleave with ⟨mem', cells', passed', hleave, hbetween⟩
  have hfunc : edit.func own item.data mem₁ =
      some ((edit own item.data mem₁).1, (edit own item.data mem₁).2.1, mem₂) := by
    rw [Editor.func, hcalls]
    rfl
  refine ⟨edit.changes own item.data mem₁, (edit own item.data mem₁).1,
    (edit own item.data mem₁).2.1, mem', cells', passed', ahead', ?_, ?_, hbetween, hshifts⟩
  · simp [Cursor.noted, cursor, harrive, hitem]
  · simp only [Cursor.turn, cursor, harrive, hitem, Option.bind_eq_bind, Option.bind_some,
      Option.map_some, hfunc, hleave]

/-!
## The whole walk
-/

def Ahead (list : Ptr) (way : Way) (cells : List (Ptr × Ptr)) (seen : List (Turn Ptr (List Change)))
    (ahead : List Ptr) (mem : Memory) : Prop :=
  exists cells' passed, Between list way (addrs cells) (deletedIn deletedBy seen)
    (account cells (seen.flatMap Turn.note)) cells' passed ahead mem

theorem ahead_keeps (list : Ptr) (way : Way) (cells : List (Ptr × Ptr)) (edit : Editor list τ) :
    (cursor way.follow).Keeps edit.func edit.changes deletedBy insertedBy
      (Inserted (addrs cells)) (addrs cells) (Ahead list way cells) where
  ne_nil := by
    intro seen p ahead mem h
    rcases h with ⟨cells', passed, hbetween⟩
    have hp : p ∈ addrs cells' := by
      rw [← mem_order way, hbetween.order_eq]
      exact List.mem_append_right _ (List.mem_cons_self ..)
    rcases List.mem_map.mp hp with ⟨c, hc, heq⟩
    rw [← heq]
    exact hbetween.holds.addr_ne hc
  new := fun _ hnew => hnew
  turn := by
    intro seen p ahead mem h own
    rcases h with ⟨cells', passed, hbetween⟩
    rcases hbetween.turn edit own with
      ⟨changes, ret, own', mem', cells'', passed', ahead', hnoted, hturn, hafter, hshifts⟩
    refine ⟨changes, ret, own', mem', ahead', hnoted, hturn, ⟨cells'', passed', ?_⟩,
      hshifts.length_le, hshifts.left_eq⟩
    rw [deletedIn_snoc, List.flatMap_append, account_append]
    simp only [List.flatMap_cons, List.flatMap_nil, List.append_nil]
    exact hafter

/-- The walk visits the items that have not been deleted before their turn, and the
list is left with those that have not been deleted at all and those inserted. -/
def ToleratesEdits (mem : Memory) (list : Ptr) (cells : List (Ptr × Ptr)) (way : Way)
    (edit : Editor list τ) (own : τ) : Prop :=
  exists enough, forall turns, enough <= turns ->
    exists own' mem' header cells',
      way.walk turns mem list (some edit.func) own = some (own', mem') ∧
      Proceeds deletedBy (Inserted (addrs cells)) [] (way.order (addrs cells))
        (recordedWalk way turns mem list edit.func edit.changes own) ∧
      WellFormed mem' list header cells' ∧
      cells'.Perm (account cells
        ((recordedWalk way turns mem list edit.func edit.changes own).flatMap Turn.note))

def InsertsFinitely (mem : Memory) (list : Ptr) (way : Way) (edit : Editor list τ) (own : τ) :
    Prop :=
  exists most, forall turns,
    insertedIn insertedBy (recordedWalk way turns mem list edit.func edit.changes own) <= most

/-- `my_list_foreach` and `my_list_rforeach` tolerate insertions and deletions by
their callback. -/
theorem list_walk_tolerates_edits (h : Holds mem list cells) (way : Way) (edit : Editor list τ)
    (own : τ) (hfinite : InsertsFinitely mem list way edit own) :
    ToleratesEdits mem list cells way edit own := by
  rcases hfinite with ⟨most, hmost⟩
  refine ⟨(way.order (addrs cells)).length + most + 1, fun turns hturns => ?_⟩
  have hstart : Ahead list way cells [] (way.order (addrs cells)) mem :=
    ⟨cells, [], h, rfl, fun q hq _ => hq, List.Perm.refl cells⟩
  have hfirst : way.first { head := headOf cells, tail := tailOf cells, length := cells.length } =
      (way.order (addrs cells)).headD NULL := by
    cases way with
    | foreach => rfl
    | rforeach => exact (headD_reverse _).symm
  have hrecorded : forall turns, recordedWalk way turns mem list edit.func edit.changes own =
      ((cursor way.follow).recorded edit.func edit.changes turns
        ((way.order (addrs cells)).headD NULL) own mem).1 := by
    intro turns
    rw [recordedWalk, h.header, ← hfirst]
  simp only [hrecorded] at hmost
  rcases (ahead_keeps list way cells edit).run hstart hmost hturns with
    ⟨visits, ret, own', mem', ahead', hrecord, ⟨cells', passed, hbetween⟩, _, hproceeds⟩
  have hwalk : way.walk turns mem list (some edit.func) own = some (own', mem') := by
    have hloop := Cursor.recorded_loop (C := cursor way.follow) edit.func edit.changes turns
      ((way.order (addrs cells)).headD NULL) own mem
    rw [show NULL = (cursor way.follow).nil from rfl, hrecord] at hloop
    show walks turns list way edit.func own mem = _
    rw [walks_eq turns h.list_ne, h.header, Option.bind_some, hfirst,
      show NULL = (cursor way.follow).nil from rfl, ← hloop]
    rfl
  have hvisits : recordedWalk way turns mem list edit.func edit.changes own = visits := by
    rw [hrecorded, show NULL = (cursor way.follow).nil from rfl, hrecord]
  have hend : if ret = 0 then
      Proceeds deletedBy (Inserted (addrs cells)) (deletedIn deletedBy ([] ++ visits))
        (Cursor.left (addrs cells) (deletedIn deletedBy ([] ++ visits)) []) []
      else ([] : List (Turn Ptr (List Change))) = [] := by
    split
    · rfl
    · rfl
  have hwhole := hproceeds [] [] hend
  have hleft : Cursor.left (addrs cells) [] (way.order (addrs cells)) =
      way.order (addrs cells) :=
    List.filter_eq_self.mpr fun q hq => by simp [(mem_order way _).mp hq]
  rw [List.append_nil, List.append_nil,
    show deletedIn deletedBy ([] : List (Turn Ptr (List Change))) = [] from rfl, hleft] at hwhole
  refine ⟨own', mem', _, cells', hwalk, ?_, hbetween.holds.wellFormed, ?_⟩
  · rw [hvisits]
    exact hwhole
  · rw [hvisits]
    exact hbetween.kept

def headCalls (list : Ptr) (mem : Memory) : List Call :=
  match mem.lists list with
  | none => []
  | some header => if header.head = NULL then [] else [.iterDelete header.head]

theorem headCalls_legal (list : Ptr) (mem : Memory) :
    Legal list mem (headCalls list mem) mem := by
  rw [headCalls]
  split
  · trivial
  · rename_i header hheader
    split
    · trivial
    · rename_i hne
      exact ⟨⟨⟨hne, header, hheader, .refl⟩, id⟩, fun _ _ _ => trivial⟩

theorem headCalls_inserts (list : Ptr) (mem : Memory) :
    insertedBy (changesOf list (headCalls list mem) mem) = 0 := by
  rw [headCalls]
  split
  · rfl
  · split
    · rfl
    · rw [changesOf]
      split
      · rfl
      · rfl

def endCalls (mem : Memory) : List Call :=
  if mem.items 256 = none then [.append 9 (blockAt 256)] else []

theorem endCalls_legal (list : Ptr) (mem : Memory) : Legal list mem (endCalls mem) mem := by
  rw [endCalls]
  split
  · rename_i hunused
    exact ⟨Or.inr ⟨by decide, hunused, by decide, rfl⟩, fun _ _ _ => trivial⟩
  · trivial

theorem endCalls_inserts (list : Ptr) (mem : Memory) :
    insertedBy (changesOf list (endCalls mem) mem) <= 1 := by
  rw [endCalls]
  split
  · rw [changesOf]
    split
    · exact Nat.zero_le _
    · rw [changesOf, List.append_nil, Call.changes]
      show insertedBy (if _ then _ else _) <= 1
      split
      · exact Nat.le_refl 1
      · exact Nat.zero_le 1
  · exact Nat.zero_le 1

/-- A callback that puts items at the end, so many times, and then deletes the first item
of the list, whatever item it is called with. -/
def appendThenDelete (list : Ptr) : Editor list Nat := fun own _ mem =>
  match own with
  | 0 => (0, 0, ⟨headCalls list mem, headCalls_legal list mem⟩)
  | times + 1 => (0, times, ⟨endCalls mem, endCalls_legal list mem⟩)

theorem appendThenDelete_counts {own own' ret : Nat} {data : Ptr}
    (h : (appendThenDelete list).func own data mem = some (ret, own', mem')) :
    insertedBy ((appendThenDelete list).changes own data mem) + own' <= own := by
  rcases Option.map_eq_some_iff.mp h with ⟨after, _, heq⟩
  cases heq
  cases own with
  | zero => exact Nat.le_of_eq (headCalls_inserts list mem)
  | succ times =>
      have hone := endCalls_inserts list mem
      show insertedBy (changesOf list (endCalls mem) mem) + times <= times + 1
      omega

theorem appendThenDelete_insertsFinitely (mem : Memory) (list : Ptr) (way : Way) (times : Nat) :
    InsertsFinitely mem list way (appendThenDelete list) times := by
  refine ⟨times, fun turns => ?_⟩
  rw [recordedWalk]
  split
  · exact Nat.zero_le times
  · have hcount : forall own data m ret own' m',
        (appendThenDelete list).func own data m = some (ret, own', m') ->
          insertedBy ((appendThenDelete list).changes own data m) + id own' <= id own :=
      fun _ _ _ _ _ _ hcall => appendThenDelete_counts hcall
    exact Cursor.recorded_inserts_le hcount turns _ times mem

theorem list_walk_tolerates_edits_appended : exists mem, mem.items 256 = none ∧ forall way,
    ToleratesEdits mem 1 [(64, 5), (192, 6), (128, 7)] way (appendThenDelete 1) 1 := by
  rcases shortRun_run with ⟨mem, hrun, hunused⟩
  have hholds : Holds mem 1 [(64, 5), (192, 6), (128, 7)] := hrun.holds oneList_created
  exact ⟨mem, hunused, fun way => list_walk_tolerates_edits hholds way (appendThenDelete 1) 1
    (appendThenDelete_insertsFinitely mem 1 way 1)⟩

end LinkedList
end MyLibs
