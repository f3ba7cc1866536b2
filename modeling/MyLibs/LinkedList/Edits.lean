import MyLibs.LinkedList.Uninitialised
import MyLibs.LinkedList.Walks

/-!
# Calls that a callback makes

While a walk calls back, the flag of its current item is set. The callback deletes
items, the current one among them, and inserts others.
-/

namespace MyLibs
namespace LinkedList

open Foundation

inductive Change where
  | insert (cell : Ptr × Ptr)
  | delete (iter : Ptr)

def Change.on (cells : List (Ptr × Ptr)) : Change -> List (Ptr × Ptr)
  | .insert c => c :: cells
  | .delete p => cells.filter fun c => c.1 ≠ p

def account (cells : List (Ptr × Ptr)) (changes : List Change) : List (Ptr × Ptr) :=
  changes.foldl Change.on cells

def deletedBy (changes : List Change) : List Ptr :=
  changes.filterMap fun
    | .insert _ => none
    | .delete p => some p

def insertedBy (changes : List Change) : Nat :=
  changes.countP fun
    | .insert _ => true
    | .delete _ => false

def Call.insertion : Call -> Option (Block × Ptr)
  | .add data block => some (block, data)
  | .prepend data block => some (block, data)
  | .append data block => some (block, data)
  | .lookadd data block => some (block, data)
  | .sortadd _ data block => some (block, data)
  | .iterInsert _ data block => some (block, data)
  | .delete _ => none
  | .iterDelete _ => none
  | .clear => none

def Call.deletion : Call -> List Change
  | .iterDelete iter => [.delete iter]
  | _ => []

def Call.changes (mem mem' : Memory) (call : Call) : List Change :=
  match call.insertion with
  | none => call.deletion
  | some (block, data) =>
      if (mem.items block.address).isNone ∧ (mem'.items block.address).isSome then
        [.insert (block.address, data)]
      else
        []

def applyEach (list : Ptr) : List Call -> Memory -> Option Memory
  | [], mem => some mem
  | call :: calls, mem => do
      let (_, mem) <- call.apply mem list
      applyEach list calls mem

def changesOf (list : Ptr) : List Call -> Memory -> List Change
  | [], _ => []
  | call :: calls, mem =>
      match call.apply mem list with
      | none => []
      | some (_, mem') => call.changes mem mem' ++ changesOf list calls mem'

/-- A call that a callback may make: it inserts an item or deletes one by
`my_list_iter_delete`, where the item it was called with, which had its flag set in
`start`, has not been deleted yet. -/
def Call.Permitted (start mem : Memory) (list : Ptr) : Call -> Prop
  | .add _ block => block.Allowed mem
  | .prepend _ block => block.Allowed mem
  | .append _ block => block.Allowed mem
  | .lookadd _ block => block.Allowed mem
  | .sortadd _ _ block => block.Allowed mem
  | .iterInsert iter _ block => block.Allowed mem ∧ mem.Reachable list iter
  | .iterDelete iter => mem.Reachable list iter ∧ (start.FlagSet iter -> mem.FlagSet iter)
  | .delete _ => False
  | .clear => False

def Legal (list : Ptr) (start : Memory) : List Call -> Memory -> Prop
  | [], _ => True
  | call :: calls, mem => call.Permitted start mem list ∧
      forall answer mem', call.apply mem list = some (answer, mem') ->
        Legal list start calls mem'

structure Edits (list : Ptr) (mem : Memory) where
  calls : List Call
  legal : Legal list mem calls mem

/-- A callback that edits the list. What it answers and which calls it makes
depend on its own state, on the data of the item and on the memory. -/
abbrev Editor (list : Ptr) (τ : Type) := τ -> Ptr -> (mem : Memory) -> Nat × τ × Edits list mem

section Definitions

variable {list : Ptr} {τ : Type}

def Editor.changes (edit : Editor list τ) : τ -> Ptr -> Memory -> List Change :=
  fun own data mem => changesOf list (edit own data mem).2.2.calls mem

def Editor.func (edit : Editor list τ) : MyListFunc τ := fun own data mem =>
  (applyEach list (edit own data mem).2.2.calls mem).map fun mem' =>
    ((edit own data mem).1, (edit own data mem).2.1, mem')

end Definitions

variable {mem mem' start : Memory} {list p q : Ptr} {block : Block} {data : Ptr}
  {cells : List (Ptr × Ptr)} {call : Call}

/-!
## Flags
-/

def OldFlags (block : Block) (mem mem' : Memory) : Prop :=
  forall q item', mem'.items q = some item' ->
    (q = block.address ∧ item'.foreach = block.contents.foreach) ∨
      exists item, mem.items q = some item ∧ item'.foreach = item.foreach

theorem OldFlags.refl (block : Block) (mem : Memory) : OldFlags block mem mem :=
  fun _ item hitem => Or.inr ⟨item, hitem, rfl⟩

theorem OldFlags.silent (h : OldFlags block mem mem')
    {mem'' : Memory} (hsilent : Silent mem' mem'') :
    OldFlags block mem mem'' := by
  intro q item hitem
  have hpayload : mem'.payload q = some (item.data, item.list, item.foreach) := by
    rw [← hsilent.left, Memory.payload, hitem]
    rfl
  rcases Option.map_eq_some_iff.mp hpayload with ⟨item', hitem', hfields⟩
  simp only [Prod.mk.injEq] at hfields
  rw [← hfields.right.right]
  exact h q item' hitem'

theorem OldFlags.newItem (block : Block) (mem : Memory) {f : MyListIter -> MyListIter}
    (hf : (f block.contents).foreach = block.contents.foreach) :
    OldFlags block mem (mem.newItem block f) := by
  intro q item hitem
  have hitem' : Function.update mem.items block.address (some (f block.contents)) q = some item :=
    hitem
  rcases eq_or_ne q block.address with heq | hne
  · rw [heq, Function.update_self] at hitem'
    cases hitem'
    exact Or.inl ⟨heq, hf⟩
  · rw [Function.update_of_ne hne] at hitem'
    exact Or.inr ⟨item, hitem', rfl⟩

theorem OldFlags.bind {write : Option Memory} {rest : Memory -> Option (Ptr × Memory)}
    {result : Ptr × Memory} (h : OldFlags block mem mem')
    (hcall : write.bind rest = some result)
    (hwrite : forall m, write = some m -> Silent mem' m)
    (hrest : forall m, OldFlags block mem m -> rest m = some result ->
      OldFlags block mem result.2) : OldFlags block mem result.2 := by
  rcases Option.bind_eq_some_iff.mp hcall with ⟨m, hm, hresult⟩
  exact hrest m (h.silent (hwrite m hm)) hresult

theorem myListPrepend_flags {result : Ptr × Memory}
    (h : myListPrepend mem list data block = some result) : OldFlags block mem result.2 := by
  rw [myListPrepend] at h
  split at h
  · cases h
    exact OldFlags.refl block mem
  split at h
  · cases h
    exact OldFlags.refl block mem
  rcases Option.bind_eq_some_iff.mp h with ⟨header, hheader, hrest⟩
  refine (OldFlags.newItem block mem (by rfl)).bind hrest (fun _ => writeList_silent) ?_
  intro mem₁ h₁ hrest₁
  refine h₁.bind hrest₁ (fun _ => writePrevOrTail_silent) ?_
  intro mem₂ h₂ hrest₂
  refine h₂.bind hrest₂ (fun _ => writeList_silent) ?_
  intro mem₃ h₃ hresult
  cases hresult
  exact h₃

theorem myListAppend_flags {result : Ptr × Memory}
    (h : myListAppend mem list data block = some result) : OldFlags block mem result.2 := by
  rw [myListAppend] at h
  split at h
  · cases h
    exact OldFlags.refl block mem
  split at h
  · cases h
    exact OldFlags.refl block mem
  rcases Option.bind_eq_some_iff.mp h with ⟨header, hheader, hrest⟩
  refine (OldFlags.newItem block mem (by rfl)).bind hrest (fun _ => writeList_silent) ?_
  intro mem₁ h₁ hrest₁
  refine h₁.bind hrest₁ (fun _ => writeNextOrHead_silent) ?_
  intro mem₂ h₂ hrest₂
  refine h₂.bind hrest₂ (fun _ => writeList_silent) ?_
  intro mem₃ h₃ hresult
  cases hresult
  exact h₃

theorem writePrev_silent {prev : Ptr} (h : mem.writePrev p prev = some mem') : Silent mem mem' := by
  rw [Memory.writePrev] at h
  split at h
  · cases h
    exact ⟨rfl, rfl⟩
  · rcases writeItem_eq_some h with ⟨item, hitem, hmem⟩
    subst hmem
    exact writeItem_silent hitem rfl rfl rfl

theorem myListAdd_flags {result : Ptr × Memory}
    (h : myListAdd mem list data block = some result) : OldFlags block mem result.2 := by
  rw [myListAdd] at h
  split at h
  · cases h
    exact OldFlags.refl block mem
  split at h
  · cases h
    exact OldFlags.refl block mem
  rcases Option.bind_eq_some_iff.mp h with ⟨header, hheader, hrest⟩
  refine (OldFlags.newItem block mem (by rfl)).bind hrest (fun _ => writeList_silent) ?_
  intro mem₁ h₁ hrest₁
  refine h₁.bind hrest₁ (fun _ => writePrev_silent) ?_
  intro mem₂ h₂ hrest₂
  refine h₂.bind hrest₂ (fun _ => writeList_silent) ?_
  intro mem₃ h₃ hresult
  cases hresult
  exact h₃

theorem myListIterInsert_flags {iter : Ptr} {result : Ptr × Memory}
    (h : myListIterInsert mem iter data block = some result) : OldFlags block mem result.2 := by
  rw [myListIterInsert] at h
  split at h
  · cases h
    exact OldFlags.refl block mem
  rcases Option.bind_eq_some_iff.mp h with ⟨next, hnext, hcall⟩
  rcases Option.bind_eq_some_iff.mp hcall with ⟨header, hheader, hrest⟩
  split at hrest
  · exact myListPrepend_flags hrest
  split at hrest
  · cases hrest
    exact OldFlags.refl block mem
  have hwrite : forall {m m' : Memory} {q link : Ptr},
      (m.writeItem q (fun item => { item with next := link }) = some m' -> Silent m m') ∧
      (m.writeItem q (fun item => { item with prev := link }) = some m' -> Silent m m') := by
    intro m m' q link
    constructor
    · intro hm
      rcases writeItem_eq_some hm with ⟨item, hitem, hmem⟩
      subst hmem
      exact writeItem_silent hitem rfl rfl rfl
    · intro hm
      rcases writeItem_eq_some hm with ⟨item, hitem, hmem⟩
      subst hmem
      exact writeItem_silent hitem rfl rfl rfl
  refine (OldFlags.newItem block mem (by rfl)).bind hrest (fun _ => hwrite.left) ?_
  intro mem₁ h₁ hrest₁
  refine h₁.bind hrest₁ (fun _ => hwrite.right) ?_
  intro mem₂ h₂ hrest₂
  refine h₂.bind hrest₂ (fun _ => writeList_silent) ?_
  intro mem₃ h₃ hresult
  cases hresult
  exact h₃

theorem myListLookadd_flags {result : Ptr × Memory}
    (h : myListLookadd mem list data block = some result) : OldFlags block mem result.2 := by
  rw [myListLookadd] at h
  split at h
  · cases h
    exact OldFlags.refl block mem
  rcases Option.bind_eq_some_iff.mp h with ⟨item, _, hrest⟩
  split at hrest
  · cases hrest
    exact OldFlags.refl block mem
  · exact myListAdd_flags hrest

theorem myListSortadd_flags {func : Option (Ptr -> Ptr -> Nat)} {result : Ptr × Memory}
    (h : myListSortadd mem list func data block = some result) :
    OldFlags block mem result.2 := by
  cases func with
  | none =>
      cases h
      exact OldFlags.refl block mem
  | some func =>
      rw [myListSortadd] at h
      split at h
      · cases h
        exact OldFlags.refl block mem
      rcases Option.bind_eq_some_iff.mp h with ⟨item, _, hrest⟩
      split at hrest
      · exact myListIterInsert_flags hrest
      · exact myListAppend_flags hrest

/-- No insertion sets or clears the flag of an item that was there. -/
theorem Call.insertion_flags {answer : Answer} (hinsertion : call.insertion = some (block, data))
    (h : call.apply mem list = some (answer, mem')) : OldFlags block mem mem' := by
  have hresult : forall {call : Option (Ptr × Memory)},
      (call.bind fun result => some (Answer.item result.1, result.2)) = some (answer, mem') ->
      exists p, call = some (p, mem') := by
    intro call hcall
    rcases Option.bind_eq_some_iff.mp hcall with ⟨⟨p, m⟩, hsome, hpair⟩
    cases hpair
    exact ⟨p, hsome⟩
  cases call with
  | add data block =>
      cases hinsertion
      rcases hresult h with ⟨p, hcall⟩
      exact myListAdd_flags hcall
  | prepend data block =>
      cases hinsertion
      rcases hresult h with ⟨p, hcall⟩
      exact myListPrepend_flags hcall
  | append data block =>
      cases hinsertion
      rcases hresult h with ⟨p, hcall⟩
      exact myListAppend_flags hcall
  | lookadd data block =>
      cases hinsertion
      rcases hresult h with ⟨p, hcall⟩
      exact myListLookadd_flags hcall
  | sortadd func data block =>
      cases hinsertion
      rcases hresult h with ⟨p, hcall⟩
      exact myListSortadd_flags hcall
  | iterInsert iter data block =>
      cases hinsertion
      rcases hresult h with ⟨p, hcall⟩
      exact myListIterInsert_flags hcall
  | delete data => cases hinsertion
  | iterDelete iter => cases hinsertion
  | clear => cases hinsertion

/-!
## One call
-/

/-- A callback has been called with the item at `cur`, whose flag is set until it is
deleted. -/
structure Visiting (list : Ptr) (cells : List (Ptr × Ptr)) (cur : Ptr) (deleted : Bool)
    (mem : Memory) : Prop where
  holds : Holds mem.unflagged list cells
  flag : forall q item, q ∈ addrs cells -> mem.items q = some item ->
    item.foreach = if q = cur ∧ deleted = false then 1 else 0

variable {cur : Ptr} {deleted : Bool}

theorem Call.exists_filled (call : Call) : exists contents, call.filled contents = call := by
  cases call with
  | add data block => exact ⟨block.contents, rfl⟩
  | prepend data block => exact ⟨block.contents, rfl⟩
  | append data block => exact ⟨block.contents, rfl⟩
  | lookadd data block => exact ⟨block.contents, rfl⟩
  | sortadd func data block => exact ⟨block.contents, rfl⟩
  | iterInsert iter data block => exact ⟨block.contents, rfl⟩
  | delete data => exact ⟨zeros, rfl⟩
  | iterDelete iter => exact ⟨zeros, rfl⟩
  | clear => exact ⟨zeros, rfl⟩

theorem filled_onSequence (contents : MyListIter) (call : Call) (cells : List (Ptr × Ptr)) :
    (call.filled contents).onSequence cells = call.onSequence cells := by
  cases call with
  | sortadd func data block =>
      cases func with
      | none => rfl
      | some func => rfl
  | add data block => rfl
  | prepend data block => rfl
  | append data block => rfl
  | lookadd data block => rfl
  | iterInsert iter data block => rfl
  | delete data => rfl
  | iterDelete iter => rfl
  | clear => rfl

theorem insertBefore_cases (found : Ptr × Ptr -> Bool) (new : Ptr × Ptr)
    (cells : List (Ptr × Ptr)) : exists first rest, cells = first ++ rest ∧
      insertBefore found new cells = first ++ new :: rest := by
  induction cells with
  | nil => exact ⟨[], [], rfl, rfl⟩
  | cons c cells ih =>
      rw [insertBefore]
      split
      · exact ⟨[], c :: cells, rfl, rfl⟩
      · rcases ih with ⟨first, rest, hsplit, hinsert⟩
        exact ⟨c :: first, rest, by rw [hsplit]; rfl, by rw [hinsert]; rfl⟩

theorem insertIf_cases {insert : Ptr × Ptr -> List (Ptr × Ptr)}
    (hinsert : forall new, exists first rest, cells = first ++ rest ∧
      insert new = first ++ new :: rest) :
    insertIf block data cells insert = cells ∨ block.address ≠ NULL ∧
      exists first rest, cells = first ++ rest ∧
        insertIf block data cells insert = first ++ (block.address, data) :: rest := by
  rcases eq_or_ne block.address NULL with hnull | hne
  · exact Or.inl (insertIf_null hnull data insert)
  · rw [insertIf_ne hne]
    exact Or.inr ⟨hne, hinsert (block.address, data)⟩

theorem Call.insertion_cases (hinsertion : call.insertion = some (block, data))
    (cells : List (Ptr × Ptr)) :
    call.onSequence cells = cells ∨ block.address ≠ NULL ∧
      exists first rest, cells = first ++ rest ∧
        call.onSequence cells = first ++ (block.address, data) :: rest := by
  have hfront : forall new : Ptr × Ptr, exists first rest, cells = first ++ rest ∧
      new :: cells = first ++ new :: rest := fun new => ⟨[], cells, rfl, rfl⟩
  cases call with
  | add data block =>
      cases hinsertion
      exact insertIf_cases hfront
  | prepend data block =>
      cases hinsertion
      exact insertIf_cases hfront
  | append data block =>
      cases hinsertion
      exact insertIf_cases fun new => ⟨cells, [], (List.append_nil cells).symm, rfl⟩
  | lookadd data block =>
      cases hinsertion
      rw [Call.onSequence]
      split
      · exact Or.inl rfl
      · exact insertIf_cases hfront
  | sortadd func data block =>
      cases hinsertion
      cases func with
      | none => exact Or.inl rfl
      | some func => exact insertIf_cases fun new => insertBefore_cases _ new cells
  | iterInsert iter data block =>
      cases hinsertion
      exact insertIf_cases fun new => insertBefore_cases _ new cells
  | delete data => cases hinsertion
  | iterDelete iter => cases hinsertion
  | clear => cases hinsertion

theorem Call.Permitted.usable (h : call.Permitted start mem list)
    (hinsertion : call.insertion = some (block, data)) :
    call.Usable mem list ∧ block.Allowed mem := by
  have husable : forall {block : Block}, block.Allowed mem -> block.Usable mem :=
    fun hallowed => hallowed.imp_right fun hfresh => ⟨hfresh.unused, hfresh.address_lt⟩
  cases call with
  | add data block =>
      cases hinsertion
      exact ⟨husable h, h⟩
  | prepend data block =>
      cases hinsertion
      exact ⟨husable h, h⟩
  | append data block =>
      cases hinsertion
      exact ⟨husable h, h⟩
  | lookadd data block =>
      cases hinsertion
      exact ⟨husable h, h⟩
  | sortadd func data block =>
      cases hinsertion
      exact ⟨husable h, h⟩
  | iterInsert iter data block =>
      cases hinsertion
      exact ⟨⟨husable h.left, h.right⟩, h.left⟩
  | delete data => cases hinsertion
  | iterDelete iter => cases hinsertion
  | clear => cases hinsertion

theorem Call.not_deferred (hinsertion : call.insertion = some (block, data)) :
    ¬call.Deferred mem list := by
  intro h
  rcases h with ⟨p, htarget, _⟩
  cases call with
  | delete data => cases hinsertion
  | iterDelete iter => cases hinsertion
  | add data block => cases htarget
  | prepend data block => cases htarget
  | append data block => cases htarget
  | lookadd data block => cases htarget
  | sortadd func data block => cases htarget
  | iterInsert iter data block => cases htarget
  | clear => cases htarget

theorem changes_same (hinsertion : call.insertion = some (block, data))
    (hnone : mem'.items block.address = none <-> mem.items block.address = none) :
    call.changes mem mem' = [] := by
  rw [Call.changes, hinsertion]
  refine if_neg ?_
  rw [Option.isNone_iff_eq_none, Option.isSome_iff_ne_none, ← hnone]
  exact fun h => h.right h.left

theorem changes_new (hinsertion : call.insertion = some (block, data))
    (hnone : mem.items block.address = none) (hsome : mem'.items block.address ≠ none) :
    call.changes mem mem' = [.insert (block.address, data)] := by
  rw [Call.changes, hinsertion]
  refine if_pos ?_
  rw [Option.isNone_iff_eq_none, Option.isSome_iff_ne_none]
  exact ⟨hnone, hsome⟩

theorem Visiting.exists_item (h : Visiting list cells cur deleted mem) (hq : q ∈ addrs cells) :
    exists item, mem.items q = some item := by
  rcases h.holds.item_unflagged hq with ⟨clean, hclean, _⟩
  rcases Option.map_eq_some_iff.mp hclean with ⟨item, hitem, _⟩
  exact ⟨item, hitem⟩

theorem mem_addrs_insert {first rest : List (Ptr × Ptr)} {c : Ptr × Ptr} :
    q ∈ addrs (first ++ c :: rest) <-> q = c.1 ∨ q ∈ addrs (first ++ rest) := by
  simp only [addrs, List.map_append, List.map_cons, List.mem_append, List.mem_cons]
  tauto

theorem Visiting.old_flag (h : Visiting list cells cur deleted mem)
    (hflags : OldFlags block mem mem') (hq : q ∈ addrs cells) (hne : q ≠ block.address)
    {item : MyListIter} (hitem : mem'.items q = some item) :
    item.foreach = if q = cur ∧ deleted = false then 1 else 0 := by
  rcases hflags q item hitem with ⟨heq, _⟩ | ⟨old, hold, hflag⟩
  · exact absurd heq hne
  · rw [hflag]
    exact h.flag q old hq hold

theorem Visiting.insert (h : Visiting list cells cur deleted mem)
    (hpermitted : call.Permitted start mem list)
    (hinsertion : call.insertion = some (block, data)) (hcur : cur ∈ addrs cells) :
    exists answer mem' cells', call.apply mem list = some (answer, mem') ∧
      Visiting list cells' cur deleted mem' ∧
      (cells' = cells ∧ call.changes mem mem' = [] ∨
        block.address ∉ addrs cells ∧
          call.changes mem mem' = [.insert (block.address, data)] ∧
          exists first rest, cells = first ++ rest ∧
            cells' = first ++ (block.address, data) :: rest) := by
  rcases hpermitted.usable hinsertion with ⟨husable, hallowed⟩
  rcases call.exists_filled with ⟨contents, hfilled⟩
  rcases h.holds.step_unflagged husable (Call.not_deferred hinsertion) contents with
    ⟨mem', hcall, hclean, hholds⟩
  rw [hfilled] at hcall
  rw [filled_onSequence] at hholds
  have hflags := Call.insertion_flags hinsertion hcall
  have hunused : forall q, q ∈ addrs cells -> block.address ≠ NULL -> q ≠ block.address := by
    intro q hq hne heq
    rcases h.exists_item hq with ⟨item, hitem⟩
    rw [heq, (hallowed.resolve_left hne).unused] at hitem
    cases hitem
  rcases Call.insertion_cases hinsertion cells with hsame | ⟨hne, first, rest, hsplit, hinsert⟩
  · -- nothing is inserted, so the memory is as before but for the flags
    rcases h.holds.step (husable.allowed h.holds) with ⟨clean, hclean', _, hunchanged⟩
    rw [hclean] at hclean'
    cases hclean'
    have hunflagged : mem'.unflagged = mem.unflagged :=
      hunchanged ((filled_onSequence zeros call cells).trans hsame)
    have hnone : forall q, mem'.items q = none <-> mem.items q = none := by
      intro q
      rw [← unflagged_items_eq_none_iff, hunflagged, unflagged_items_eq_none_iff]
    rw [hsame] at hholds
    refine ⟨_, mem', cells, hcall, ⟨hholds, fun q item hq hitem => ?_⟩,
      Or.inl ⟨rfl, changes_same hinsertion (hnone _)⟩⟩
    by_cases hnull : block.address = NULL
    · refine h.old_flag hflags hq ?_ hitem
      intro heq
      rcases h.exists_item hq with ⟨old, hold⟩
      rw [heq, hnull, unflagged_items_eq_none_iff.mp h.holds.null] at hold
      cases hold
    · exact h.old_flag hflags hq (hunused q hq hnull) hitem
  · have hfresh := hallowed.resolve_left hne
    have hnew : mem'.items block.address ≠ none := by
      rw [ne_eq, ← unflagged_items_eq_none_iff]
      rw [hinsert] at hholds
      exact hholds.exists_of_mem (List.mem_append_right _ (List.mem_cons_self ..))
    refine ⟨_, mem', _, hcall, ⟨hholds, fun q item hq hitem => ?_⟩, Or.inr
      ⟨fun hmem => hunused _ hmem hne rfl, changes_new hinsertion hfresh.unused hnew, first, rest,
        hsplit, hinsert⟩⟩
    rw [hinsert, mem_addrs_insert, ← hsplit] at hq
    rcases hq with heq | hq
    · -- the new item is not the current one
      have hcurNe : ¬(q = cur ∧ deleted = false) := fun hq =>
        hunused cur hcur hne (hq.left.symm.trans heq)
      rw [if_neg hcurNe]
      rcases hflags q item hitem with ⟨_, hflag⟩ | ⟨old, hold, _⟩
      · rw [hflag, hfresh.flag]
      · rw [heq, hfresh.unused] at hold
        cases hold
    · exact h.old_flag hflags hq (hunused q hq hne) hitem

theorem eraseP_eq_filter (hnodup : (addrs cells).Nodup) (p : Ptr) :
    cells.eraseP (fun c => c.1 == p) = cells.filter fun c => c.1 ≠ p := by
  induction cells with
  | nil => rfl
  | cons c cells ih =>
      rcases List.nodup_cons.mp hnodup with ⟨hc, hrest⟩
      by_cases heq : c.1 = p
      · have hall : forall d, d ∈ cells -> d.1 ≠ p := by
          intro d hd hdp
          exact hc (List.mem_map.mpr ⟨d, hd, hdp.trans heq.symm⟩)
        rw [List.eraseP_cons_of_pos (by simpa using heq),
          List.filter_cons_of_neg (by simpa using heq)]
        exact (List.filter_eq_self.mpr fun d hd => decide_eq_true (hall d hd)).symm
      · rw [List.eraseP_cons_of_neg (by simpa using heq),
          List.filter_cons_of_pos (by simpa using heq), ih hrest]

theorem addrs_filter (cells : List (Ptr × Ptr)) (p : Ptr) :
    addrs (cells.filter fun c => c.1 ≠ p) = (addrs cells).filter fun q => q ≠ p := by
  rw [addrs, addrs, List.filter_map]
  rfl

theorem Visiting.delete (h : Visiting list cells cur deleted mem) (hp : p ∈ addrs cells)
    (hne : p ≠ cur) : exists mem',
      (Call.iterDelete p).apply mem list = some (.nothing, mem') ∧
      Visiting list (cells.filter fun c => c.1 ≠ p) cur deleted mem' := by
  rcases h.exists_item hp with ⟨item, hitem⟩
  have hflag : item.foreach = 0 := by
    rw [h.flag p item hp hitem, if_neg fun heq => hne heq.left]
  have husable : (Call.iterDelete p).Usable mem list :=
    reachable_unflagged.mp (h.holds.reachable_iff.mpr hp)
  have hclear : ¬(Call.iterDelete p).Deferred mem list := by
    intro hdeferred
    rcases hdeferred with ⟨q, htarget, other, hother, hset⟩
    cases htarget
    rw [hitem] at hother
    cases hother
    rw [hflag] at hset
    exact Int.zero_ne_one hset
  have hpnull : p ≠ NULL := by
    intro heq
    rw [heq, unflagged_items_eq_none_iff.mp h.holds.null] at hitem
    cases hitem
  rcases h.holds.step_unflagged husable hclear zeros with ⟨mem', hcall, _, hholds⟩
  have hcells : Call.onSequence cells ((Call.iterDelete p).filled zeros) =
      cells.filter fun c => c.1 ≠ p := eraseP_eq_filter h.holds.nodup p
  rw [hcells] at hholds
  refine ⟨mem', hcall, hholds, fun q other hq hother => ?_⟩
  rcases Option.bind_eq_some_iff.mp hcall with ⟨after, hdelete, hpair⟩
  cases hpair
  have hpayload := (myListIterDelete_freed hpnull hitem hflag hdelete).left
  rw [addrs_filter, List.mem_filter, decide_eq_true_eq] at hq
  have hsame := congrFun hpayload q
  rw [Function.update_of_ne hq.right, Memory.payload, hother] at hsame
  rcases Option.map_eq_some_iff.mp hsame.symm with ⟨old, hold, hfields⟩
  simp only [Prod.mk.injEq] at hfields
  rw [← hfields.right.right]
  exact h.flag q old hq.left hold

/-- The current item only loses its flag. -/
theorem Visiting.defer (h : Visiting list cells cur false mem) (hcur : cur ∈ addrs cells) :
    exists mem', (Call.iterDelete cur).apply mem list = some (.nothing, mem') ∧
      Visiting list cells cur true mem' := by
  rcases h.exists_item hcur with ⟨item, hitem⟩
  have hset : item.foreach = 1 := by
    rw [h.flag cur item hcur hitem, if_pos ⟨rfl, rfl⟩]
  have hnull : cur ≠ NULL := by
    intro heq
    rw [heq, unflagged_items_eq_none_iff.mp h.holds.null] at hitem
    cases hitem
  have hwrite := writeItem_of_some hitem fun item => { item with foreach := 0 }
  have hdelete : myListIterDelete mem cur = some
      { mem with items := Function.update mem.items cur (some { item with foreach := 0 }) } := by
    rw [myListIterDelete, if_neg hnull, hitem]
    simp only [Option.bind_eq_bind, Option.bind_some, if_pos hset, hwrite]
  rcases myListIterDelete_deferred hnull ⟨item, hitem, hset⟩ with ⟨mem', hdelete', hsame⟩
  rw [hdelete] at hdelete'
  cases hdelete'
  refine ⟨_, by rw [Call.apply, hdelete]; rfl, ?_, fun q other hq hother => ?_⟩
  · rw [hsame]
    exact h.holds
  · rw [if_neg fun heq => Bool.noConfusion heq.right]
    have hother' : Function.update mem.items cur (some { item with foreach := 0 }) q = some other :=
      hother
    rcases eq_or_ne q cur with heq | hne
    · rw [heq, Function.update_self] at hother'
      cases hother'
      rfl
    · rw [Function.update_of_ne hne] at hother'
      rw [h.flag q other hq hother', if_neg fun heq => hne heq.left]

end LinkedList
end MyLibs
