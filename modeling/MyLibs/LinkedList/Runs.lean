import MyLibs.LinkedList.Operations

/-!
# The list as a sequence

What each call does to the sequence of items, and what it returns. A run is any
number of calls on one list, each with the allocation it may make.
-/

namespace MyLibs
namespace LinkedList

open Foundation

inductive Call where
  | add (data : Ptr) (block : Block)
  | prepend (data : Ptr) (block : Block)
  | append (data : Ptr) (block : Block)
  | lookadd (data : Ptr) (block : Block)
  | sortadd (func : Option (Ptr -> Ptr -> Nat)) (data : Ptr) (block : Block)
  | iterInsert (iter data : Ptr) (block : Block)
  | delete (data : Ptr)
  | iterDelete (iter : Ptr)
  | clear

inductive Answer where
  | item (p : Ptr)
  | code (r : Int)
  | nothing
deriving DecidableEq

def Call.apply (mem : Memory) (list : Ptr) : Call -> Option (Answer × Memory)
  | .add data block => do
      let (item, mem) <- myListAdd mem list data block
      some (.item item, mem)
  | .prepend data block => do
      let (item, mem) <- myListPrepend mem list data block
      some (.item item, mem)
  | .append data block => do
      let (item, mem) <- myListAppend mem list data block
      some (.item item, mem)
  | .lookadd data block => do
      let (item, mem) <- myListLookadd mem list data block
      some (.item item, mem)
  | .sortadd func data block => do
      let (item, mem) <- myListSortadd mem list func data block
      some (.item item, mem)
  | .iterInsert iter data block => do
      let (item, mem) <- myListIterInsert mem iter data block
      some (.item item, mem)
  | .delete data => do
      let (r, mem) <- myListDelete mem list data
      some (.code r, mem)
  | .iterDelete iter => do
      let mem <- myListIterDelete mem iter
      some (.nothing, mem)
  | .clear => do
      let mem <- myListClear mem list
      some (.nothing, mem)

/-!
## Sequences
-/

def insertBefore (found : Ptr × Ptr -> Bool) (new : Ptr × Ptr) :
    List (Ptr × Ptr) -> List (Ptr × Ptr)
  | [] => [new]
  | c :: cells => if found c then new :: c :: cells else c :: insertBefore found new cells

def insertIf (block : Block) (data : Ptr) (cells : List (Ptr × Ptr))
    (insert : Ptr × Ptr -> List (Ptr × Ptr)) : List (Ptr × Ptr) :=
  if block.address = NULL then cells else insert (block.address, data)

def Call.onSequence (cells : List (Ptr × Ptr)) : Call -> List (Ptr × Ptr)
  | .add data block => insertIf block data cells fun c => c :: cells
  | .prepend data block => insertIf block data cells fun c => c :: cells
  | .append data block => insertIf block data cells fun c => cells ++ [c]
  | .lookadd data block =>
      if (cells.any fun c => data == c.2) = true then cells
      else insertIf block data cells fun c => c :: cells
  | .sortadd none _ _ => cells
  | .sortadd (some func) data block =>
      insertIf block data cells fun new =>
        insertBefore (fun c => decide (0 < func c.2 data)) new cells
  | .iterInsert iter data block =>
      insertIf block data cells fun new => insertBefore (fun c => c.1 == iter) new cells
  | .delete data => cells.eraseP fun c => data == c.2
  | .iterDelete iter => cells.eraseP fun c => c.1 == iter
  | .clear => []

def Call.answer (cells : List (Ptr × Ptr)) : Call -> Answer
  | .add _ block => .item block.address
  | .prepend _ block => .item block.address
  | .append _ block => .item block.address
  | .lookadd data block =>
      .item ((cells.find? fun c => data == c.2).elim block.address Prod.fst)
  | .sortadd none _ _ => .item NULL
  | .sortadd (some _) _ block => .item block.address
  | .iterInsert _ _ block => .item block.address
  | .delete data => .code (if (cells.any fun c => data == c.2) = true then 0 else -1)
  | .iterDelete _ => .nothing
  | .clear => .nothing

def sequenceAfter (calls : List Call) : List (Ptr × Ptr) :=
  calls.foldl Call.onSequence []

theorem sequenceAfter_snoc (calls : List Call) (call : Call) :
    sequenceAfter (calls ++ [call]) = call.onSequence (sequenceAfter calls) := by
  rw [sequenceAfter, List.foldl_append]
  rfl

section Sequences

variable {found : Ptr × Ptr -> Bool} {new c : Ptr × Ptr} {first rest cells : List (Ptr × Ptr)}

theorem insertBefore_split (hfirst : forall d, d ∈ first -> found d = false)
    (hc : found c = true) :
    insertBefore found new (first ++ c :: rest) = first ++ new :: c :: rest := by
  induction first with
  | nil =>
      show (if found c then new :: c :: rest else _) = _
      rw [hc, if_pos rfl]
      rfl
  | cons d first ih =>
      show (if found d then _ else d :: insertBefore found new (first ++ c :: rest)) = _
      rw [hfirst d (List.mem_cons_self ..), if_neg Bool.false_ne_true,
        ih (fun e he => hfirst e (List.mem_cons_of_mem d he))]
      rfl

theorem insertBefore_none (hcells : forall d, d ∈ cells -> found d = false) :
    insertBefore found new cells = cells ++ [new] := by
  induction cells with
  | nil => rfl
  | cons d cells ih =>
      show (if found d then _ else d :: insertBefore found new cells) = _
      rw [hcells d (List.mem_cons_self ..), if_neg Bool.false_ne_true,
        ih (fun e he => hcells e (List.mem_cons_of_mem d he))]
      rfl

theorem eraseP_split (hfirst : forall d, d ∈ first -> found d = false)
    (hc : found c = true) : (first ++ c :: rest).eraseP found = first ++ rest := by
  rw [List.eraseP_append_right]
  · rw [List.eraseP_cons_of_pos hc]
  · intro d hd
    rw [hfirst d hd]
    exact Bool.false_ne_true

theorem any_split (hc : found c = true) : (first ++ c :: rest).any found = true := by
  rw [List.any_eq_true]
  exact ⟨c, List.mem_append_right _ (List.mem_cons_self ..), hc⟩

theorem find?_split (hfirst : forall d, d ∈ first -> found d = false)
    (hc : found c = true) : (first ++ c :: rest).find? found = some c := by
  rw [List.find?_eq_some_iff_append]
  exact ⟨hc, first, rest, rfl, fun d hd => by rw [hfirst d hd]; rfl⟩

end Sequences

/-!
## One call
-/

section Calls

variable {mem mem' : Memory} {list : Ptr} {cells : List (Ptr × Ptr)} {call : Call}

def Block.Allowed (block : Block) (mem : Memory) : Prop :=
  block.address = NULL ∨ block.Fresh mem

def Call.Allowed (mem : Memory) (cells : List (Ptr × Ptr)) : Call -> Prop
  | .add _ block => block.Allowed mem
  | .prepend _ block => block.Allowed mem
  | .append _ block => block.Allowed mem
  | .lookadd _ block => block.Allowed mem
  | .sortadd _ _ block => block.Allowed mem
  | .iterInsert iter _ block => block.Allowed mem ∧ iter ∈ addrs cells
  | .iterDelete iter => iter ∈ addrs cells
  | .delete _ => True
  | .clear => True

def Call.Refines (mem : Memory) (list : Ptr) (cells : List (Ptr × Ptr)) (call : Call) : Prop :=
  exists mem', call.apply mem list = some (call.answer cells, mem') ∧
    Holds mem' list (call.onSequence cells) ∧
    (call.onSequence cells = cells -> mem' = mem)

theorem Holds.before_ne {first rest : List (Ptr × Ptr)} {c : Ptr × Ptr}
    (h : Holds mem list (first ++ c :: rest)) {d : Ptr × Ptr} (hd : d ∈ first) :
    (d.1 == c.1) = false := by
  have hnodup := h.nodup
  rw [addrs_append, List.nodup_append] at hnodup
  rw [beq_eq_false_iff_ne]
  exact hnodup.right.right d.1 (List.mem_map.mpr ⟨d, hd, rfl⟩) c.1 (List.mem_cons_self ..)

theorem addrs_split {p : Ptr} (hp : p ∈ addrs cells) :
    exists first c rest, cells = first ++ c :: rest ∧ c.1 = p := by
  rcases List.mem_map.mp hp with ⟨c, hc, hcp⟩
  rcases List.append_of_mem hc with ⟨first, rest, hsplit⟩
  exact ⟨first, c, rest, hsplit, hcp⟩

theorem insertIf_ne {block : Block} (hblock : block.address ≠ NULL) (data : Ptr)
    (insert : Ptr × Ptr -> List (Ptr × Ptr)) :
    insertIf block data cells insert = insert (block.address, data) :=
  if_neg hblock

theorem insertIf_null {block : Block} (hblock : block.address = NULL) (data : Ptr)
    (insert : Ptr × Ptr -> List (Ptr × Ptr)) : insertIf block data cells insert = cells :=
  if_pos hblock

inductive Call.Outcome (mem : Memory) (list : Ptr) (cells : List (Ptr × Ptr)) (call : Call) :
    Memory -> Prop
  | unchanged (hcells : call.onSequence cells = cells) : Outcome mem list cells call mem
  | grown {mem' : Memory} {data : Ptr} {block : Block} (hblock : block.Fresh mem)
      (hgrown : Grown mem mem' list data block (call.onSequence cells))
      (hperm : (call.onSequence cells).Perm ((block.address, data) :: cells)) :
      Outcome mem list cells call mem'
  | shrunk {mem' : Memory} {first rest : List (Ptr × Ptr)} {c : Ptr × Ptr}
      (hclear : call ≠ .clear) (hsplit : cells = first ++ c :: rest)
      (hcells : call.onSequence cells = first ++ rest)
      (hshrunk : Shrunk mem mem' list c.1 (first ++ rest)) : Outcome mem list cells call mem'
  | cleared (hclear : call = .clear) : Outcome mem list cells call
      { mem with lists := Function.update mem.lists list (some myListInit) }

def Call.Acts (mem : Memory) (list : Ptr) (cells : List (Ptr × Ptr)) (call : Call) : Prop :=
  exists mem', call.apply mem list = some (call.answer cells, mem') ∧
    call.Outcome mem list cells mem'

theorem Holds.cleared (h : Holds mem list cells) :
    Holds { mem with lists := Function.update mem.lists list (some myListInit) } list [] where
  list_ne := h.list_ne
  null := h.null
  header := Function.update_self ..
  chain := rfl
  payload := fun c hc => by cases hc
  bound := h.bound

theorem Call.Outcome.holds (houtcome : call.Outcome mem list cells mem')
    (h : Holds mem list cells) : Holds mem' list (call.onSequence cells) := by
  cases houtcome with
  | unchanged hcells => exact hcells.symm ▸ h
  | grown hblock hgrown hperm => exact hgrown.holds
  | shrunk hclear hsplit hcells hshrunk => exact hcells.symm ▸ hshrunk.holds
  | cleared hclear =>
      subst hclear
      exact h.cleared

theorem Call.Outcome.eq_of_same (houtcome : call.Outcome mem list cells mem')
    (h : Holds mem list cells) (hsame : call.onSequence cells = cells) : mem' = mem := by
  cases houtcome with
  | unchanged hcells => rfl
  | grown hblock hgrown hperm =>
      have hlength := hperm.length_eq
      rw [hsame] at hlength
      exact absurd hlength (Nat.ne_of_lt (Nat.lt_succ_self _))
  | @shrunk mem' first rest c hclear hsplit hcells hshrunk =>
      have hlength := congrArg List.length (hcells.symm.trans (hsame.trans hsplit))
      simp only [List.length_append, List.length_cons] at hlength
      omega
  | cleared hclear =>
      subst hclear
      have hempty : cells = [] := hsame.symm
      subst hempty
      have hheader : mem.lists list = some myListInit := h.header
      rw [← hheader, Function.update_eq_self]

theorem Call.Acts.refines (hacts : call.Acts mem list cells) (h : Holds mem list cells) :
    call.Refines mem list cells := by
  rcases hacts with ⟨mem', happly, houtcome⟩
  exact ⟨mem', happly, houtcome.holds h, houtcome.eq_of_same h⟩

theorem Call.Acts.insertion {block : Block} (data : Ptr)
    (insert : Ptr × Ptr -> List (Ptr × Ptr)) (hblock : block.Allowed mem)
    (hcells : call.onSequence cells = insertIf block data cells insert)
    (hnull : block.address = NULL -> call.apply mem list = some (call.answer cells, mem))
    (hfresh : block.Fresh mem -> exists mem',
      call.apply mem list = some (call.answer cells, mem') ∧
        Grown mem mem' list data block (insert (block.address, data)))
    (hperm : (insert (block.address, data)).Perm ((block.address, data) :: cells)) :
    call.Acts mem list cells := by
  rcases hblock with hfull | hroom
  · exact ⟨mem, hnull hfull, .unchanged (hcells.trans (insertIf_null hfull data insert))⟩
  · rcases hfresh hroom with ⟨mem', happly, hgrown⟩
    rw [insertIf_ne hroom.address_ne] at hcells
    rw [← hcells] at hgrown hperm
    exact ⟨mem', happly, .grown hroom hgrown hperm⟩

theorem Call.Acts.congr {other : Call} (hacts : other.Acts mem list cells)
    (hclear : call ≠ .clear ∧ other ≠ .clear) (happly : call.apply mem list = other.apply mem list)
    (hanswer : call.answer cells = other.answer cells)
    (hcells : call.onSequence cells = other.onSequence cells) : call.Acts mem list cells := by
  rcases hacts with ⟨mem', hcall, houtcome⟩
  refine ⟨mem', by rw [happly, hcall, hanswer], ?_⟩
  cases houtcome with
  | unchanged hsame => exact .unchanged (hcells.trans hsame)
  | grown hblock hgrown hperm =>
      rw [← hcells] at hgrown hperm
      exact .grown hblock hgrown hperm
  | shrunk _ hsplit hrest hshrunk => exact .shrunk hclear.left hsplit (hcells.trans hrest) hshrunk
  | cleared hother => exact absurd hother hclear.right

theorem add_acts (h : Holds mem list cells) {data : Ptr} {block : Block}
    (hblock : block.Allowed mem) : (Call.add data block).Acts mem list cells := by
  refine Call.Acts.insertion data (fun c => c :: cells) hblock rfl ?_ ?_ (List.Perm.refl _)
  · intro hnull
    rw [Call.apply, (insertions_failed data hnull h).right.left, Call.answer, hnull]
    rfl
  · intro hfresh
    rcases myListAdd_spec h hfresh data with ⟨mem', hadd, hgrown⟩
    exact ⟨mem', by rw [Call.apply, hadd]; rfl, hgrown⟩

theorem prepend_acts (h : Holds mem list cells) {data : Ptr} {block : Block}
    (hblock : block.Allowed mem) : (Call.prepend data block).Acts mem list cells := by
  refine Call.Acts.insertion data (fun c => c :: cells) hblock rfl ?_ ?_ (List.Perm.refl _)
  · intro hnull
    rw [Call.apply, (insertions_failed data hnull h).left, Call.answer, hnull]
    rfl
  · intro hfresh
    rcases myListPrepend_spec h hfresh data with ⟨mem', hprepend, hgrown⟩
    exact ⟨mem', by rw [Call.apply, hprepend]; rfl, hgrown⟩

theorem append_acts (h : Holds mem list cells) {data : Ptr} {block : Block}
    (hblock : block.Allowed mem) : (Call.append data block).Acts mem list cells := by
  refine Call.Acts.insertion data (fun c => cells ++ [c]) hblock rfl ?_ ?_ ?_
  · intro hnull
    rw [Call.apply, (insertions_failed data hnull h).right.right.left, Call.answer, hnull]
    rfl
  · intro hfresh
    rcases myListAppend_spec h hfresh data with ⟨mem', happend, hgrown⟩
    exact ⟨mem', by rw [Call.apply, happend]; rfl, hgrown⟩
  · exact List.perm_append_singleton (block.address, data) cells

theorem lookadd_acts (h : Holds mem list cells) {data : Ptr} {block : Block}
    (hblock : block.Allowed mem) : (Call.lookadd data block).Acts mem list cells := by
  have hlookup : myListLookup mem list data =
      findFromHead mem list fun other => data == other := if_neg h.list_ne
  rcases findFromHead_spec h fun other => data == other with
    ⟨hnone, hall⟩ | ⟨first, c, rest, hsplit, hc, hfirst, hsome⟩
  · -- the data is absent, and the call is an addition
    have hany : (cells.any fun c => data == c.2) = false := by
      rw [List.any_eq_false]
      intro c hc
      rw [hall c hc]
      exact Bool.false_ne_true
    have hfind : (cells.find? fun c => data == c.2) = none := by
      rw [List.find?_eq_none]
      intro c hc
      rw [hall c hc]
      exact Bool.false_ne_true
    have happly : Call.apply mem list (.lookadd data block) =
        Call.apply mem list (.add data block) := by
      simp only [Call.apply, myListLookadd, if_neg h.list_ne, hlookup, hnone]
      rfl
    refine (add_acts h hblock).congr (by simp) happly ?_ ?_
    · rw [Call.answer, Call.answer, hfind]
      rfl
    · have hsequence : Call.onSequence cells (.lookadd data block) =
          if (cells.any fun c => data == c.2) = true then cells
          else Call.onSequence cells (.add data block) := rfl
      rw [hsequence, hany, if_neg Bool.false_ne_true]
  · refine ⟨mem, ?_, .unchanged ?_⟩
    · have hne : c.1 ≠ NULL := by
        apply h.addr_ne
        rw [hsplit]
        exact List.mem_append_right _ (List.mem_cons_self ..)
      rw [Call.answer, hsplit, find?_split hfirst hc]
      simp only [Call.apply, myListLookadd, if_neg h.list_ne, hlookup, hsome,
        Option.bind_eq_bind, Option.bind_some, ne_eq, hne, not_false_iff, if_true]
      rfl
    · rw [Call.onSequence, hsplit, if_pos (any_split hc)]

theorem iterInsert_acts (h : Holds mem list cells) {iter data : Ptr} {block : Block}
    (hblock : block.Allowed mem) (hiter : iter ∈ addrs cells) :
    (Call.iterInsert iter data block).Acts mem list cells := by
  rcases addrs_split hiter with ⟨first, c, rest, hsplit, hc⟩
  subst hsplit
  subst hc
  have hinsert : forall new : Ptr × Ptr,
      insertBefore (fun d => d.1 == c.1) new (first ++ c :: rest) =
        first ++ new :: c :: rest := fun new =>
    insertBefore_split (fun d hd => h.before_ne hd) (beq_self_eq_true c.1)
  refine Call.Acts.insertion data
    (fun new => insertBefore (fun d => d.1 == c.1) new (first ++ c :: rest)) hblock rfl
    ?_ ?_ ?_
  · intro hnull
    have hfailed := (insertions_failed data hnull h).right.right.right c
      (List.mem_append_right _ (List.mem_cons_self ..))
    rw [Call.apply, hfailed, Call.answer, hnull]
    rfl
  · intro hfresh
    rcases myListIterInsert_spec h hfresh data with ⟨mem', hiterInsert, hgrown⟩
    refine ⟨mem', ?_, ?_⟩
    · rw [Call.apply, hiterInsert]
      rfl
    · rw [hinsert]
      exact hgrown
  · rw [hinsert]
    exact List.perm_middle

theorem sortadd_acts (h : Holds mem list cells) {func : Option (Ptr -> Ptr -> Nat)}
    {data : Ptr} {block : Block} (hblock : block.Allowed mem) :
    (Call.sortadd func data block).Acts mem list cells := by
  cases func with
  | none => exact ⟨mem, rfl, .unchanged rfl⟩
  | some func =>
      rcases findFromHead_spec h fun other => decide (0 < func other data) with
        ⟨hnone, hall⟩ | ⟨first, c, rest, hsplit, hc, hfirst, hsome⟩
      · -- behind all items
        have happly : Call.apply mem list (.sortadd (some func) data block) =
            Call.apply mem list (.append data block) := by
          simp only [Call.apply, myListSortadd, if_neg h.list_ne, hnone]
          rfl
        have hinsert : Call.onSequence cells (.sortadd (some func) data block) =
            Call.onSequence cells (.append data block) := by
          simp only [Call.onSequence, insertBefore_none hall]
        exact (append_acts h hblock).congr (by simp) happly rfl hinsert
      · subst hsplit
        have hmem : c ∈ first ++ c :: rest :=
          List.mem_append_right _ (List.mem_cons_self ..)
        have happly : Call.apply mem list (.sortadd (some func) data block) =
            Call.apply mem list (.iterInsert c.1 data block) := by
          simp only [Call.apply, myListSortadd, if_neg h.list_ne, hsome,
            Option.bind_eq_bind, Option.bind_some, ne_eq, h.addr_ne hmem, not_false_iff, if_true]
        have hiter : c.1 ∈ addrs (first ++ c :: rest) := List.mem_map.mpr ⟨c, hmem, rfl⟩
        have hinsert : Call.onSequence (first ++ c :: rest) (.sortadd (some func) data block) =
            Call.onSequence (first ++ c :: rest) (.iterInsert c.1 data block) := by
          simp only [Call.onSequence, insertBefore_split hfirst hc,
            insertBefore_split (fun d hd => h.before_ne hd) (beq_self_eq_true c.1)]
        exact (iterInsert_acts h hblock hiter).congr (by simp) happly rfl
          hinsert

theorem delete_acts (h : Holds mem list cells) (data : Ptr) :
    (Call.delete data).Acts mem list cells := by
  rcases findFromHead_spec h fun other => data == other with
    ⟨hnone, hall⟩ | ⟨first, c, rest, hsplit, hc, hfirst, hsome⟩
  · refine ⟨mem, ?_, .unchanged ?_⟩
    · have hany : (cells.any fun c => data == c.2) = false := by
        rw [List.any_eq_false]
        intro c hc
        rw [hall c hc]
        exact Bool.false_ne_true
      simp only [Call.apply, Call.answer, hany, myListDelete, if_neg h.list_ne, hnone]
      rfl
    · apply List.eraseP_of_forall_not
      intro c hc
      rw [hall c hc]
      exact Bool.false_ne_true
  · subst hsplit
    have hne : c.1 ≠ NULL := h.addr_ne (List.mem_append_right _ (List.mem_cons_self ..))
    rcases myListIterDelete_spec h with ⟨mem', hdelete, hshrunk⟩
    refine ⟨mem', ?_, .shrunk (by simp) rfl (eraseP_split hfirst hc) hshrunk⟩
    rw [Call.answer, if_pos (any_split hc)]
    simp only [Call.apply, myListDelete, if_neg h.list_ne, hsome, Option.bind_eq_bind,
      Option.bind_some, if_neg hne, hdelete]

theorem iterDelete_acts (h : Holds mem list cells) {iter : Ptr} (hiter : iter ∈ addrs cells) :
    (Call.iterDelete iter).Acts mem list cells := by
  rcases addrs_split hiter with ⟨first, c, rest, hsplit, hc⟩
  subst hsplit
  subst hc
  rcases myListIterDelete_spec h with ⟨mem', hdelete, hshrunk⟩
  have hcells : Call.onSequence (first ++ c :: rest) (.iterDelete c.1) = first ++ rest :=
    eraseP_split (fun d hd => h.before_ne hd) (beq_self_eq_true c.1)
  refine ⟨mem', ?_, .shrunk (by simp) rfl hcells hshrunk⟩
  rw [Call.apply, hdelete]
  rfl

theorem clear_acts (h : Holds mem list cells) : Call.clear.Acts mem list cells := by
  have hclear := writeList_of_some h.header fun _ => myListInit
  refine ⟨_, ?_, .cleared rfl⟩
  show (mem.writeList list fun _ => myListInit).bind _ = _
  rw [hclear]
  rfl

theorem Holds.acts (h : Holds mem list cells) (hallowed : call.Allowed mem cells) :
    call.Acts mem list cells := by
  cases call with
  | add data block => exact add_acts h hallowed
  | prepend data block => exact prepend_acts h hallowed
  | append data block => exact append_acts h hallowed
  | lookadd data block => exact lookadd_acts h hallowed
  | sortadd func data block => exact sortadd_acts h hallowed
  | iterInsert iter data block => exact iterInsert_acts h hallowed.left hallowed.right
  | delete data => exact delete_acts h data
  | iterDelete iter => exact iterDelete_acts h hallowed
  | clear => exact clear_acts h

/-- Every call keeps the list well formed and does what it says to the
sequence. -/
theorem Holds.step (h : Holds mem list cells) (hallowed : call.Allowed mem cells) :
    call.Refines mem list cells :=
  (h.acts hallowed).refines h

end Calls

/-!
## Well-formed lists
-/

section WellFormed

variable {mem : Memory} {list : Ptr} {header : MyList} {cells : List (Ptr × Ptr)}

def nextOf (mem : Memory) (p : Ptr) : Ptr :=
  (mem.items p).elim NULL MyListIter.next

def prevOf (mem : Memory) (p : Ptr) : Ptr :=
  (mem.items p).elim NULL MyListIter.prev

structure WellFormed (mem : Memory) (list : Ptr) (header : MyList)
    (cells : List (Ptr × Ptr)) : Prop where
  header_eq : mem.lists list = some header
  forwards : Segment (nextOf mem) header.head (addrs cells) NULL
  backwards : Segment (prevOf mem) header.tail (addrs cells).reverse NULL
  head_prev : prevOf mem header.head = NULL
  tail_next : nextOf mem header.tail = NULL
  head_null : header.head = NULL <-> cells = []
  tail_null : header.tail = NULL <-> cells = []
  length_eq : header.length = cells.length
  nodup : (addrs cells).Nodup
  items : forall c, c ∈ cells -> c.1 ≠ NULL ∧
    exists item, mem.items c.1 = some item ∧ item.data = c.2 ∧ item.list = list

theorem nextOf_of_links {p : Ptr} {link : Ptr × Ptr} (h : mem.links p = some link) :
    nextOf mem p = link.1 := by
  rcases Option.map_eq_some_iff.mp h with ⟨item, hitem, hpair⟩
  rw [nextOf, hitem, ← hpair]
  rfl

theorem prevOf_of_links {p : Ptr} {link : Ptr × Ptr} (h : flipped mem.links p = some link) :
    prevOf mem p = link.1 := by
  rcases Option.map_eq_some_iff.mp h with ⟨links, hlinks, hswap⟩
  rcases Option.map_eq_some_iff.mp hlinks with ⟨item, hitem, hpair⟩
  rw [prevOf, hitem, ← hswap, ← hpair]
  rfl

theorem Holds.wellFormed (h : Holds mem list cells) : WellFormed mem list
    { head := headOf cells, tail := tailOf cells, length := cells.length } cells where
  header_eq := h.header
  forwards := h.chain.segment fun _ _ hlink => nextOf_of_links hlink
  backwards := h.chain.reverse.segment fun _ _ hlink => prevOf_of_links hlink
  head_prev := by
    cases cells with
    | nil => rw [prevOf, show headOf [] = NULL from rfl, h.null]; rfl
    | cons c cells =>
        have hbehind : Holds mem list ([] ++ c :: cells) := h
        have hitem := hbehind.item_at
        rw [prevOf, show headOf (c :: cells) = c.1 from rfl, hitem]
        rfl
  tail_next := by
    by_cases hempty : cells = []
    · rw [nextOf, hempty, show tailOf [] = NULL from rfl, h.null]
      rfl
    · rcases List.eq_nil_or_concat cells with hnil | ⟨first, last, hsplit⟩
      · exact absurd hnil hempty
      · rw [List.concat_eq_append] at hsplit
        subst hsplit
        have hlast : tailOf (first ++ [last]) = last.1 := by
          rw [tailOf_append_cons, if_pos rfl]
        rw [nextOf, hlast, h.item_at]
        rfl
  head_null := h.headOf_eq_null_iff fun _ hc => hc
  tail_null := h.tailOf_eq_null_iff fun _ hc => hc
  length_eq := rfl
  nodup := h.nodup
  items := by
    intro c hc
    refine ⟨h.addr_ne hc, ?_⟩
    rcases Option.map_eq_some_iff.mp (h.payload c hc) with ⟨item, hitem, hpayload⟩
    simp only [Prod.mk.injEq] at hpayload
    exact ⟨item, hitem, hpayload.left, hpayload.right.left⟩

end WellFormed

/-!
## Runs
-/

section Runs

variable {start mem : Memory} {list : Ptr} {calls : List Call}

structure Created (mem : Memory) (list : Ptr) : Prop where
  list_ne : list ≠ NULL
  null : mem.items NULL = none
  header : mem.lists list = some myListInit
  bound : forall p, mem.items p ≠ none -> p < 2 ^ 64

inductive Run (list : Ptr) (start : Memory) : List Call -> Memory -> Prop
  | nil : Run list start [] start
  | snoc {calls : List Call} {mem mem' : Memory} {call : Call} {answer : Answer} :
      Run list start calls mem -> call.Allowed mem (sequenceAfter calls) ->
      call.apply mem list = some (answer, mem') -> Run list start (calls ++ [call]) mem'

theorem Created.holds (h : Created start list) : Holds start list [] where
  list_ne := h.list_ne
  null := h.null
  header := h.header
  chain := rfl
  payload := fun c hc => by cases hc
  bound := h.bound

theorem Run.holds (h : Run list start calls mem) (hstart : Created start list) :
    Holds mem list (sequenceAfter calls) := by
  induction h with
  | nil => exact hstart.holds
  | snoc _ hallowed hcall ih =>
      rcases ih.step hallowed with ⟨mem', hcall', hholds, _⟩
      rw [hcall] at hcall'
      cases hcall'
      rw [sequenceAfter_snoc]
      exact hholds

/-- After any calls the list is well formed and holds the sequence the calls
describe, and the next call returns what that sequence says and changes it as it
says, or changes nothing. -/
theorem list_refines_sequence (hstart : Created start list)
    (hrun : Run list start calls mem) :
    (exists header, WellFormed mem list header (sequenceAfter calls)) ∧
      forall call : Call, call.Allowed mem (sequenceAfter calls) ->
        exists mem', call.apply mem list =
            some (call.answer (sequenceAfter calls), mem') ∧
          (exists header, WellFormed mem' list header
            (call.onSequence (sequenceAfter calls))) ∧
          (call.onSequence (sequenceAfter calls) = sequenceAfter calls ->
            mem' = mem) := by
  have hholds := hrun.holds hstart
  constructor
  · exact ⟨_, hholds.wellFormed⟩
  · intro call hallowed
    rcases hholds.step hallowed with ⟨mem', hcall, hholds', hsame⟩
    exact ⟨mem', hcall, ⟨_, hholds'.wellFormed⟩, hsame⟩

def oneList : Memory where
  lists := Function.update (fun _ => none) 1 (some myListInit)
  items := fun _ => none
  log := []

theorem oneList_created : Created oneList 1 where
  list_ne := by decide
  null := rfl
  header := rfl
  bound := fun _ h => absurd rfl h

def blockAt (p : Ptr) : Block where
  address := p
  contents := { data := 0, list := 0, next := 0, prev := 0, foreach := 0 }

def shortRun : List Call :=
  [.add 5 (blockAt 64), .append 7 (blockAt 128), .iterInsert 128 6 (blockAt 192)]

theorem shortRun_run : exists mem, Run 1 oneList shortRun mem ∧ mem.items 256 = none := by
  show exists mem, Run 1 oneList
    (([.add 5 (blockAt 64)] ++ [.append 7 (blockAt 128)]) ++
      [.iterInsert 128 6 (blockAt 192)]) mem ∧ mem.items 256 = none
  refine ⟨_, Run.snoc (Run.snoc (Run.snoc Run.nil ?_ rfl) ?_ rfl) ?_ rfl, rfl⟩
  · exact Or.inr ⟨by decide, rfl, by decide, rfl⟩
  · exact Or.inr ⟨by decide, rfl, by decide, rfl⟩
  · exact ⟨Or.inr ⟨by decide, rfl, by decide, rfl⟩, by decide⟩

theorem list_refines_sequence_shortRun : exists mem header,
    WellFormed mem 1 header [(64, 5), (192, 6), (128, 7)] := by
  rcases shortRun_run with ⟨mem, hrun, _⟩
  exact ⟨mem, (list_refines_sequence oneList_created hrun).left⟩

end Runs

end LinkedList
end MyLibs
