import MyLibs.LinkedList.Runs

/-!
# Uninitialised flags

No insertion sets the flag of a new item. Two runs whose blocks held different
bytes are compared, through the memory in which all flags are cleared.
-/

namespace MyLibs
namespace LinkedList

open Foundation

variable {mem mem' : Memory} {list data p : Ptr} {block : Block} {cells : List (Ptr × Ptr)}
  {call : Call} {contents : MyListIter}

/-!
## Twin runs
-/

def Call.filled (contents : MyListIter) : Call -> Call
  | .add data block => .add data { block with contents := contents }
  | .prepend data block => .prepend data { block with contents := contents }
  | .append data block => .append data { block with contents := contents }
  | .lookadd data block => .lookadd data { block with contents := contents }
  | .sortadd func data block => .sortadd func data { block with contents := contents }
  | .iterInsert iter data block => .iterInsert iter data { block with contents := contents }
  | .delete data => .delete data
  | .iterDelete iter => .iterDelete iter
  | .clear => .clear

def Block.Usable (block : Block) (mem : Memory) : Prop :=
  block.address = NULL ∨ mem.items block.address = none ∧ block.address < 2 ^ 64

def Call.Usable (mem : Memory) (list : Ptr) : Call -> Prop
  | .add _ block => block.Usable mem
  | .prepend _ block => block.Usable mem
  | .append _ block => block.Usable mem
  | .lookadd _ block => block.Usable mem
  | .sortadd _ _ block => block.Usable mem
  | .iterInsert iter _ block => block.Usable mem ∧ mem.Reachable list iter
  | .iterDelete iter => mem.Reachable list iter
  | .delete _ => True
  | .clear => True

def dataFrom (mem : Memory) : Nat -> Ptr -> Option (List Ptr)
  | 0, _ => none
  | fuel + 1, item =>
      if item = NULL then
        some []
      else do
        let iter <- mem.items item
        let rest <- dataFrom mem fuel iter.next
        some (iter.data :: rest)

def observe (mem : Memory) (list : Ptr) : Option (List Ptr × Nat) := do
  let header <- mem.lists list
  let data <- dataFrom mem (header.length + 1) header.head
  some (data, header.length)

structure TwinCall where
  call : Call
  first : MyListIter
  second : MyListIter

def Usable (list : Ptr) : List TwinCall -> Memory -> Memory -> Prop
  | [], _, _ => True
  | twin :: twins, mem₁, mem₂ => twin.call.Usable mem₁ list ∧ twin.call.Usable mem₂ list ∧
      forall answer₁ mem₁' answer₂ mem₂',
        (twin.call.filled twin.first).apply mem₁ list = some (answer₁, mem₁') ->
        (twin.call.filled twin.second).apply mem₂ list = some (answer₂, mem₂') ->
        Usable list twins mem₁' mem₂'

def SameResults (list : Ptr) : List TwinCall -> Memory -> Memory -> Prop
  | [], _, _ => True
  | twin :: twins, mem₁, mem₂ => exists answer mem₁' mem₂',
      (twin.call.filled twin.first).apply mem₁ list = some (answer, mem₁') ∧
      (twin.call.filled twin.second).apply mem₂ list = some (answer, mem₂') ∧
      observe mem₁' list = observe mem₂' list ∧ SameResults list twins mem₁' mem₂'

def Call.target (mem : Memory) (list : Ptr) : Call -> Option Ptr
  | .delete data => findFromHead mem list fun other => data == other
  | .iterDelete iter => some iter
  | _ => none

def Memory.FlagSet (mem : Memory) (p : Ptr) : Prop :=
  exists item, mem.items p = some item ∧ item.foreach = 1

/-- Whenever an item is about to be removed, its flag says the same in both runs. -/
def FlagsAgree (list : Ptr) : List TwinCall -> Memory -> Memory -> Prop
  | [], _, _ => True
  | twin :: twins, mem₁, mem₂ =>
      (forall p, twin.call.target mem₁ list = some p -> (mem₁.FlagSet p <-> mem₂.FlagSet p)) ∧
      forall answer₁ mem₁' answer₂ mem₂',
        (twin.call.filled twin.first).apply mem₁ list = some (answer₁, mem₁') ->
        (twin.call.filled twin.second).apply mem₂ list = some (answer₂, mem₂') ->
        FlagsAgree list twins mem₁' mem₂'

/-!
## Clearing the flags
-/

def MyListIter.unflagged (item : MyListIter) : MyListIter :=
  { item with foreach := 0 }

def Memory.unflagged (mem : Memory) : Memory :=
  { mem with items := fun p => (mem.items p).map MyListIter.unflagged }

def zeros : MyListIter where
  data := 0
  list := 0
  next := 0
  prev := 0
  foreach := 0

theorem unflagged_items_eq_none_iff : mem.unflagged.items p = none <-> mem.items p = none :=
  Option.map_eq_none_iff

theorem unflagged_items_of_some {item : MyListIter} (hitem : mem.items p = some item) :
    mem.unflagged.items p = some item.unflagged := by
  show (mem.items p).map MyListIter.unflagged = _
  rw [hitem]
  rfl

theorem unflagged_update (mem : Memory) (p : Ptr) (item : Option MyListIter) (log : List Ptr) :
    Memory.unflagged { mem with items := Function.update mem.items p item, log := log } =
      { mem.unflagged with
        items := Function.update mem.unflagged.items p (item.map MyListIter.unflagged)
        log := log } := by
  have hitems : (fun q => (Function.update mem.items p item q).map MyListIter.unflagged) =
      Function.update mem.unflagged.items p (item.map MyListIter.unflagged) := by
    funext q
    rcases eq_or_ne q p with hq | hq
    · rw [hq, Function.update_self, Function.update_self]
    · rw [Function.update_of_ne hq, Function.update_of_ne hq]
      rfl
  rw [Memory.unflagged, hitems]
  rfl

theorem writeItem_unflagged (p : Ptr) {f : MyListIter -> MyListIter}
    (hf : forall item, (f item).unflagged = f item.unflagged) :
    mem.unflagged.writeItem p f = (mem.writeItem p f).map Memory.unflagged := by
  rw [Memory.writeItem, Memory.writeItem]
  cases hitem : mem.items p with
  | none => rw [unflagged_items_eq_none_iff.mpr hitem]; rfl
  | some item =>
      rw [unflagged_items_of_some hitem]
      simp only [Option.map_some]
      rw [unflagged_update mem p (some (f item)) mem.log, Option.map_some, hf]
      rfl

theorem writeList_unflagged (list : Ptr) (f : MyList -> MyList) :
    mem.unflagged.writeList list f = (mem.writeList list f).map Memory.unflagged := by
  rw [Memory.writeList, Memory.writeList, Option.map_map]
  rfl

theorem writePrev_unflagged (p prev : Ptr) :
    mem.unflagged.writePrev p prev = (mem.writePrev p prev).map Memory.unflagged := by
  rw [Memory.writePrev, Memory.writePrev]
  split
  next => rfl
  next => exact writeItem_unflagged p fun _ => rfl

theorem writePrevOrTail_unflagged (list p prev : Ptr) :
    mem.unflagged.writePrevOrTail list p prev =
      (mem.writePrevOrTail list p prev).map Memory.unflagged := by
  rw [Memory.writePrevOrTail, Memory.writePrevOrTail]
  split
  next => exact writeList_unflagged list _
  next => exact writeItem_unflagged p fun _ => rfl

theorem writeNextOrHead_unflagged (list p next : Ptr) :
    mem.unflagged.writeNextOrHead list p next =
      (mem.writeNextOrHead list p next).map Memory.unflagged := by
  rw [Memory.writeNextOrHead, Memory.writeNextOrHead]
  split
  next => exact writeList_unflagged list _
  next => exact writeItem_unflagged p fun _ => rfl

theorem newItem_unflagged (block : Block) (data list next prev : Ptr) :
    (mem.newItem block fun contents =>
        { contents with data := data, list := list, next := next, prev := prev }).unflagged =
      mem.unflagged.newItem { block with contents := zeros } fun contents =>
        { contents with data := data, list := list, next := next, prev := prev } :=
  unflagged_update mem block.address _ mem.log

theorem findItem_unflagged (found : Ptr -> Bool) (fuel : Nat) (item : Ptr) :
    findItem mem.unflagged found fuel item = findItem mem found fuel item := by
  induction fuel generalizing item with
  | zero => rfl
  | succ fuel ih =>
      rw [findItem, findItem]
      cases hitem : mem.items item with
      | none => rw [unflagged_items_eq_none_iff.mpr hitem]; rfl
      | some iter =>
          rw [unflagged_items_of_some hitem]
          simp only [Option.bind_eq_bind, Option.bind_some, MyListIter.unflagged, ih]

theorem findFromHead_unflagged (list : Ptr) (found : Ptr -> Bool) :
    findFromHead mem.unflagged list found = findFromHead mem list found := by
  rw [findFromHead, findFromHead]
  simp only [findItem_unflagged]
  rfl

theorem dataFrom_unflagged (fuel : Nat) (item : Ptr) :
    dataFrom mem.unflagged fuel item = dataFrom mem fuel item := by
  induction fuel generalizing item with
  | zero => rfl
  | succ fuel ih =>
      rw [dataFrom, dataFrom]
      cases hitem : mem.items item with
      | none => rw [unflagged_items_eq_none_iff.mpr hitem]; rfl
      | some iter =>
          rw [unflagged_items_of_some hitem]
          simp only [Option.bind_eq_bind, Option.bind_some, MyListIter.unflagged, ih]

theorem observe_unflagged (mem : Memory) (list : Ptr) :
    observe mem.unflagged list = observe mem list := by
  rw [observe, observe]
  simp only [dataFrom_unflagged]
  rfl

/-!
## Calls with all flags cleared
-/

/-- A call on the memory goes as the one on the memory with all flags cleared. -/
def Follows {α : Type} (call : Option (α × Memory)) (clean : Option (α × Memory)) : Prop :=
  clean = call.map fun result => (result.1, result.2.unflagged)

theorem Follows.bind {α : Type} {write clean : Option Memory}
    {rest rest' : Memory -> Option (α × Memory)} (hwrite : clean = write.map Memory.unflagged)
    (hrest : forall mem, Follows (rest mem) (rest' mem.unflagged)) :
    Follows (write.bind rest) (clean.bind rest') := by
  subst hwrite
  cases write with
  | none => rfl
  | some mem => exact hrest mem

theorem Follows.answer {α β : Type} {call clean : Option (α × Memory)} (h : Follows call clean)
    (f : α -> β) : Follows (call.bind fun result => some (f result.1, result.2))
      (clean.bind fun result => some (f result.1, result.2)) := by
  subst h
  cases call with
  | none => rfl
  | some result => rfl

theorem Follows.unless {α : Type} {c : Prop} [Decidable c] {result : Option (α × Memory)}
    {result' call clean : Option (α × Memory)} (hearly : Follows result result')
    (h : Follows call clean) :
    Follows (if c then result else call) (if c then result' else clean) := by
  split
  next => exact hearly
  next => exact h

theorem Follows.header {α : Type} {list : Ptr} {rest rest' : MyList -> Option (α × Memory)}
    (h : forall header, Follows (rest header) (rest' header)) :
    Follows ((mem.lists list).bind rest) ((mem.unflagged.lists list).bind rest') := by
  show Follows _ ((mem.lists list).bind rest')
  cases mem.lists list with
  | none => rfl
  | some header => exact h header

theorem myListAdd_follows (mem : Memory) (list data : Ptr) (block : Block) :
    Follows (myListAdd mem list data block)
      (myListAdd mem.unflagged list data { block with contents := zeros }) := by
  refine Follows.unless rfl (Follows.unless rfl (Follows.header fun header => ?_))
  simp only [← newItem_unflagged]
  refine Follows.bind (writeList_unflagged ..) fun mem => ?_
  refine Follows.bind (writePrev_unflagged ..) fun mem => ?_
  refine Follows.bind (writeList_unflagged ..) fun mem => ?_
  rfl

theorem myListPrepend_follows (mem : Memory) (list data : Ptr) (block : Block) :
    Follows (myListPrepend mem list data block)
      (myListPrepend mem.unflagged list data { block with contents := zeros }) := by
  refine Follows.unless rfl (Follows.unless rfl (Follows.header fun header => ?_))
  simp only [← newItem_unflagged]
  refine Follows.bind (writeList_unflagged ..) fun mem => ?_
  refine Follows.bind (writePrevOrTail_unflagged ..) fun mem => ?_
  refine Follows.bind (writeList_unflagged ..) fun mem => ?_
  rfl

theorem myListAppend_follows (mem : Memory) (list data : Ptr) (block : Block) :
    Follows (myListAppend mem list data block)
      (myListAppend mem.unflagged list data { block with contents := zeros }) := by
  refine Follows.unless rfl (Follows.unless rfl (Follows.header fun header => ?_))
  simp only [← newItem_unflagged]
  refine Follows.bind (writeList_unflagged ..) fun mem => ?_
  refine Follows.bind (writeNextOrHead_unflagged ..) fun mem => ?_
  refine Follows.bind (writeList_unflagged ..) fun mem => ?_
  rfl

theorem myListLookadd_follows (mem : Memory) (list data : Ptr) (block : Block) :
    Follows (myListLookadd mem list data block)
      (myListLookadd mem.unflagged list data { block with contents := zeros }) := by
  rw [myListLookadd, myListLookadd, myListLookup, myListLookup, findFromHead_unflagged]
  split
  next => rfl
  next =>
    cases findFromHead mem list fun other => data == other with
    | none => rfl
    | some item =>
        simp only [Option.bind_eq_bind, Option.bind_some]
        split
        next => rfl
        next => exact myListAdd_follows mem list data block

theorem myListIterInsert_follows (mem : Memory) (iter data : Ptr) (block : Block) :
    Follows (myListIterInsert mem iter data block)
      (myListIterInsert mem.unflagged iter data { block with contents := zeros }) := by
  refine Follows.unless rfl ?_
  cases hitem : mem.items iter with
  | none => rw [unflagged_items_eq_none_iff.mpr hitem]; rfl
  | some next =>
      rw [unflagged_items_of_some hitem]
      simp only [Option.bind_eq_bind, Option.bind_some, MyListIter.unflagged]
      refine Follows.header fun header => ?_
      refine Follows.unless (myListPrepend_follows mem next.list data block) ?_
      refine Follows.unless rfl ?_
      simp only [← newItem_unflagged]
      refine Follows.bind (writeItem_unflagged _ fun _ => rfl) fun mem => ?_
      refine Follows.bind (writeItem_unflagged _ fun _ => rfl) fun mem => ?_
      refine Follows.bind (writeList_unflagged ..) fun mem => ?_
      rfl

theorem myListSortadd_follows (mem : Memory) (list : Ptr) (func : Option (Ptr -> Ptr -> Nat))
    (data : Ptr) (block : Block) : Follows (myListSortadd mem list func data block)
      (myListSortadd mem.unflagged list func data { block with contents := zeros }) := by
  cases func with
  | none => rfl
  | some func =>
      rw [myListSortadd, myListSortadd, findFromHead_unflagged]
      split
      next => rfl
      next =>
        cases findFromHead mem list fun other => decide (0 < func other data) with
        | none => rfl
        | some item =>
            simp only [Option.bind_eq_bind, Option.bind_some]
            split
            next => exact myListIterInsert_follows mem item data block
            next => exact myListAppend_follows mem list data block

theorem myListIterDelete_unflagged (hclear : ¬mem.FlagSet p) :
    myListIterDelete mem.unflagged p = (myListIterDelete mem p).map Memory.unflagged := by
  rw [myListIterDelete, myListIterDelete]
  split
  next => rfl
  next =>
    cases hitem : mem.items p with
    | none => rw [unflagged_items_eq_none_iff.mpr hitem]; rfl
    | some item =>
        have hflag : item.foreach ≠ 1 := fun hset => hclear ⟨item, hitem, hset⟩
        have hzero : item.unflagged.foreach ≠ 1 := Int.zero_ne_one
        rw [unflagged_items_of_some hitem]
        simp only [Option.bind_eq_bind, Option.bind_some, if_neg hflag, if_neg hzero]
        simp only [MyListIter.unflagged, writePrevOrTail_unflagged]
        cases mem.writePrevOrTail item.list item.next item.prev with
        | none => rfl
        | some mem₁ =>
            simp only [Option.map_some, Option.bind_some, writeNextOrHead_unflagged]
            cases mem₁.writeNextOrHead item.list item.prev item.next with
            | none => rfl
            | some mem₂ =>
                simp only [Option.map_some, Option.bind_some, writeList_unflagged]
                cases mem₂.writeList item.list fun header =>
                    { header with length := sizetSub header.length 1 } with
                | none => rfl
                | some mem₃ =>
                    simp only [Option.map_some, Option.bind_some, unflagged_update]
                    rfl

theorem unflagged_write {item : MyListIter} (hitem : mem.items p = some item) (flag : Int) :
    Memory.unflagged { mem with
      items := Function.update mem.items p (some { item with foreach := flag }) } =
      mem.unflagged := by
  rw [unflagged_update mem p _ mem.log]
  have hsame : Option.map MyListIter.unflagged (some { item with foreach := flag }) =
      mem.unflagged.items p := by
    rw [unflagged_items_of_some hitem]
    rfl
  rw [hsame, Function.update_eq_self]
  rfl

theorem myListIterDelete_deferred (hp : p ≠ NULL) (hset : mem.FlagSet p) :
    exists mem', myListIterDelete mem p = some mem' ∧ mem'.unflagged = mem.unflagged := by
  rcases hset with ⟨item, hitem, hflag⟩
  rw [myListIterDelete, if_neg hp, hitem]
  simp only [Option.bind_eq_bind, Option.bind_some, if_pos hflag]
  exact ⟨_, writeItem_of_some hitem _, unflagged_write hitem 0⟩

/-!
## One call
-/

def Call.Deferred (mem : Memory) (list : Ptr) (call : Call) : Prop :=
  exists p, call.target mem list = some p ∧ mem.FlagSet p

theorem Follows.removal {p : Ptr} {answer : Answer} (hclear : ¬mem.FlagSet p) :
    Follows ((myListIterDelete mem p).bind fun mem => some (answer, mem))
      ((myListIterDelete mem.unflagged p).bind fun mem => some (answer, mem)) :=
  Follows.bind (myListIterDelete_unflagged hclear) fun _ => rfl

theorem myListDelete_follows (hlist : list ≠ NULL)
    (hclear : ¬(Call.delete data).Deferred mem list) :
    Follows (myListDelete mem list data) (myListDelete mem.unflagged list data) := by
  rw [myListDelete, myListDelete, if_neg hlist, if_neg hlist, findFromHead_unflagged]
  cases hfind : findFromHead mem list fun other => data == other with
  | none => rfl
  | some item =>
      have hitem : ¬mem.FlagSet item := fun hset => hclear ⟨item, hfind, hset⟩
      simp only [Option.bind_eq_bind, Option.bind_some]
      split
      next => rfl
      next => exact Follows.bind (myListIterDelete_unflagged hitem) fun _ => rfl

/-- Unless a removal is put off, the flags do not matter. -/
theorem Call.follows (hlist : list ≠ NULL) (hclear : ¬call.Deferred mem list) :
    Follows ((call.filled contents).apply mem list)
      ((call.filled zeros).apply mem.unflagged list) := by
  cases call with
  | add data block => exact (myListAdd_follows mem list data _).answer Answer.item
  | prepend data block => exact (myListPrepend_follows mem list data _).answer Answer.item
  | append data block => exact (myListAppend_follows mem list data _).answer Answer.item
  | lookadd data block => exact (myListLookadd_follows mem list data _).answer Answer.item
  | sortadd func data block => exact (myListSortadd_follows mem list func data _).answer Answer.item
  | iterInsert iter data block =>
      exact (myListIterInsert_follows mem iter data _).answer Answer.item
  | delete data => exact (myListDelete_follows hlist hclear).answer Answer.code
  | iterDelete iter =>
      exact Follows.removal fun hset => hclear ⟨iter, rfl, hset⟩
  | clear => exact Follows.bind (writeList_unflagged list _) fun _ => rfl

theorem reachable_unflagged : mem.unflagged.Reachable list p <-> mem.Reachable list p := by
  have hstep : (fun q r => exists item, mem.unflagged.items q = some item ∧ item.next = r) =
      fun q r => exists item, mem.items q = some item ∧ item.next = r := by
    funext q r
    apply propext
    constructor
    · intro h
      rcases h with ⟨item, hitem, hnext⟩
      rcases Option.map_eq_some_iff.mp hitem with ⟨item', hitem', rfl⟩
      exact ⟨item', hitem', hnext⟩
    · intro h
      rcases h with ⟨item, hitem, hnext⟩
      exact ⟨item.unflagged, unflagged_items_of_some hitem, hnext⟩
  rw [Memory.Reachable, Memory.Reachable, hstep]
  rfl

theorem Block.Usable.allowed (h : block.Usable mem) :
    Block.Allowed { block with contents := zeros } mem.unflagged := by
  rcases eq_or_ne block.address NULL with hfull | hne
  · exact Or.inl hfull
  · rcases h.resolve_left hne with ⟨hunused, hlt⟩
    exact Or.inr ⟨hne, unflagged_items_eq_none_iff.mpr hunused, hlt, rfl⟩

theorem Call.Usable.allowed (h : Holds mem.unflagged list cells) (husable : call.Usable mem list) :
    (call.filled zeros).Allowed mem.unflagged cells := by
  have hmem : forall q, mem.Reachable list q -> q ∈ addrs cells := fun q hq =>
    h.reachable_iff.mp (reachable_unflagged.mpr hq)
  cases call with
  | add data block => exact Block.Usable.allowed husable
  | prepend data block => exact Block.Usable.allowed husable
  | append data block => exact Block.Usable.allowed husable
  | lookadd data block => exact Block.Usable.allowed husable
  | sortadd func data block => exact Block.Usable.allowed husable
  | iterInsert iter data block => exact ⟨Block.Usable.allowed husable.left, hmem iter husable.right⟩
  | delete data => trivial
  | iterDelete iter => exact hmem iter husable
  | clear => trivial

theorem Holds.step_unflagged (h : Holds mem.unflagged list cells)
    (husable : call.Usable mem list) (hclear : ¬call.Deferred mem list)
    (contents : MyListIter) : exists mem',
      (call.filled contents).apply mem list = some ((call.filled zeros).answer cells, mem') ∧
      (call.filled zeros).apply mem.unflagged list =
        some ((call.filled zeros).answer cells, mem'.unflagged) ∧
      Holds mem'.unflagged list ((call.filled zeros).onSequence cells) := by
  rcases h.step (husable.allowed h) with ⟨clean, hclean, hholds, _⟩
  have hfollows : Follows ((call.filled contents).apply mem list)
      ((call.filled zeros).apply mem.unflagged list) := Call.follows h.list_ne hclear
  rw [Follows, hclean] at hfollows
  rcases Option.map_eq_some_iff.mp hfollows.symm with ⟨⟨answer, mem'⟩, hcall, hresult⟩
  cases hresult
  exact ⟨mem', hcall, hclean, hholds⟩

theorem Holds.step_deferred (h : Holds mem.unflagged list cells) (husable : call.Usable mem list)
    (hdeferred : call.Deferred mem list) (contents : MyListIter) :
    (exists mem',
      (call.filled contents).apply mem list = some ((call.filled zeros).answer cells, mem') ∧
        mem'.unflagged = mem.unflagged) ∧
      ((call.filled zeros).onSequence cells).length + 1 = cells.length := by
  rcases hdeferred with ⟨p, htarget, hset⟩
  have hp : p ≠ NULL := by
    rcases hset with ⟨item, hitem, _⟩
    intro hnull
    rw [hnull, unflagged_items_eq_none_iff.mp h.null] at hitem
    cases hitem
  rcases myListIterDelete_deferred hp hset with ⟨mem', hdelete, hsame⟩
  cases call with
  | delete data =>
      have hfind : findFromHead mem list (fun other => data == other) = some p := htarget
      rcases findFromHead_spec h fun other => data == other with
        ⟨hnone, _⟩ | ⟨first, c, rest, hsplit, hc, hfirst, hsome⟩
      · rw [findFromHead_unflagged, hfind] at hnone
        cases hnone
        exact absurd rfl hp
      · subst hsplit
        constructor
        · refine ⟨mem', ?_, hsame⟩
          have hanswer : Call.answer (first ++ c :: rest) ((Call.delete data).filled zeros) =
              .code 0 := congrArg Answer.code (if_pos (any_split hc))
          rw [hanswer]
          show ((myListDelete mem list data).bind _) = _
          rw [myListDelete, if_neg h.list_ne, hfind]
          simp only [Option.bind_eq_bind, Option.bind_some, if_neg hp, hdelete]
        · have hcells : Call.onSequence (first ++ c :: rest) ((Call.delete data).filled zeros) =
              first ++ rest := eraseP_split hfirst hc
          rw [hcells, List.length_append, List.length_append, List.length_cons, Nat.add_assoc]
  | iterDelete iter =>
      have hiter : iter = p := Option.some.inj htarget
      subst hiter
      rcases addrs_split (h.reachable_iff.mp (reachable_unflagged.mpr husable)) with
        ⟨first, c, rest, hsplit, hc⟩
      subst hsplit
      subst hc
      constructor
      · refine ⟨mem', ?_, hsame⟩
        show ((myListIterDelete mem c.1).bind _) = _
        rw [hdelete]
        rfl
      · have hcells : Call.onSequence (first ++ c :: rest) ((Call.iterDelete c.1).filled zeros) =
            first ++ rest :=
          eraseP_split (fun d hd => h.before_ne hd) (beq_self_eq_true c.1)
        rw [hcells, List.length_append, List.length_append, List.length_cons, Nat.add_assoc]
  | add data block => cases htarget
  | prepend data block => cases htarget
  | append data block => cases htarget
  | lookadd data block => cases htarget
  | sortadd func data block => cases htarget
  | iterInsert iter data block => cases htarget
  | clear => cases htarget

/-!
## What is observed
-/

theorem Holds.dataFrom_eq {first rest : List (Ptr × Ptr)} {fuel : Nat}
    (h : Holds mem list (first ++ rest)) (hfuel : rest.length < fuel) :
    dataFrom mem fuel (headOf rest) = some (rest.map Prod.snd) := by
  induction rest generalizing first fuel with
  | nil =>
      cases fuel with
      | zero => cases hfuel
      | succ fuel => rfl
  | cons c rest ih =>
      cases fuel with
      | zero => cases hfuel
      | succ fuel =>
          have hbehind : Holds mem list ((first ++ [c]) ++ rest) := by
            rw [List.append_assoc]
            exact h
          have hne : c.1 ≠ NULL := h.addr_ne (List.mem_append_right _ (List.mem_cons_self ..))
          have hrest := ih hbehind (Nat.lt_of_succ_lt_succ hfuel)
          show dataFrom mem (fuel + 1) c.1 = _
          rw [dataFrom, if_neg hne, h.item_at]
          simp only [Option.bind_eq_bind, Option.bind_some, hrest, List.map_cons]

theorem Holds.observe_eq (h : Holds mem.unflagged list cells) :
    observe mem list = some (cells.map Prod.snd, cells.length) := by
  have hbehind : Holds mem.unflagged list ([] ++ cells) := h
  rw [← observe_unflagged, observe, h.header]
  simp only [Option.bind_eq_bind, Option.bind_some, hbehind.dataFrom_eq (Nat.lt_succ_self _)]

/-!
## Two runs
-/

section Twins

variable {mem₁ mem₂ : Memory} {twin : TwinCall}

theorem target_congr (hsame : mem₁.unflagged = mem₂.unflagged) (call : Call) :
    call.target mem₁ list = call.target mem₂ list := by
  cases call with
  | delete data =>
      show findFromHead mem₁ list _ = findFromHead mem₂ list _
      rw [← findFromHead_unflagged, hsame, findFromHead_unflagged]
  | _ => rfl

theorem flags_agree_iff (hsame : mem₁.unflagged = mem₂.unflagged) :
    (forall p, call.target mem₁ list = some p -> (mem₁.FlagSet p <-> mem₂.FlagSet p)) <->
      (call.Deferred mem₁ list <-> call.Deferred mem₂ list) := by
  have htarget : call.target mem₁ list = call.target mem₂ list := target_congr hsame call
  rw [Call.Deferred, Call.Deferred, ← htarget]
  constructor
  · intro hflags
    constructor
    · intro h
      rcases h with ⟨p, hp, hset⟩
      exact ⟨p, hp, (hflags p hp).mp hset⟩
    · intro h
      rcases h with ⟨p, hp, hset⟩
      exact ⟨p, hp, (hflags p hp).mpr hset⟩
  · intro hdeferred p hp
    constructor
    · intro hset
      rcases hdeferred.mp ⟨p, hp, hset⟩ with ⟨q, hq, hset'⟩
      rw [hp] at hq
      exact Option.some.inj hq ▸ hset'
    · intro hset
      rcases hdeferred.mpr ⟨p, hp, hset⟩ with ⟨q, hq, hset'⟩
      rw [hp] at hq
      exact Option.some.inj hq ▸ hset'

theorem Holds.twins_agree (h : Holds mem₁.unflagged list cells)
    (hsame : mem₁.unflagged = mem₂.unflagged) (husable₁ : call.Usable mem₁ list)
    (husable₂ : call.Usable mem₂ list)
    (hagree : call.Deferred mem₁ list <-> call.Deferred mem₂ list) (first second : MyListIter) :
    exists answer mem₁' mem₂' cells', (call.filled first).apply mem₁ list = some (answer, mem₁') ∧
      (call.filled second).apply mem₂ list = some (answer, mem₂') ∧
      mem₁'.unflagged = mem₂'.unflagged ∧ Holds mem₁'.unflagged list cells' := by
  have h₂ := hsame ▸ h
  by_cases hdeferred : call.Deferred mem₁ list
  · rcases (h.step_deferred husable₁ hdeferred first).left with ⟨mem₁', hcall₁, hkept₁⟩
    rcases (h₂.step_deferred husable₂ (hagree.mp hdeferred) second).left with
      ⟨mem₂', hcall₂, hkept₂⟩
    exact ⟨_, mem₁', mem₂', cells, hcall₁, hcall₂, hkept₁.trans (hsame.trans hkept₂.symm),
      hkept₁.symm ▸ h⟩
  · rcases h.step_unflagged husable₁ hdeferred first with ⟨mem₁', hcall₁, hclean₁, hholds⟩
    rcases h₂.step_unflagged husable₂ (mt hagree.mpr hdeferred) second with
      ⟨mem₂', hcall₂, hclean₂, _⟩
    rw [← hsame, hclean₁] at hclean₂
    have hsame' := congrArg Prod.snd (Option.some.inj hclean₂)
    exact ⟨_, mem₁', mem₂', _, hcall₁, hcall₂, hsame', hholds⟩

/-- Where one run puts off a removal and the other does not, the lists differ. -/
theorem Holds.twins_differ (h : Holds mem₁.unflagged list cells)
    (hsame : mem₁.unflagged = mem₂.unflagged) (husable₁ : call.Usable mem₁ list)
    (husable₂ : call.Usable mem₂ list) (hdeferred : call.Deferred mem₁ list)
    (hclear : ¬call.Deferred mem₂ list) (first second : MyListIter) :
    exists answer₁ mem₁' answer₂ mem₂',
      (call.filled first).apply mem₁ list = some (answer₁, mem₁') ∧
      (call.filled second).apply mem₂ list = some (answer₂, mem₂') ∧
      observe mem₁' list ≠ observe mem₂' list := by
  have h₂ := hsame ▸ h
  rcases h.step_deferred husable₁ hdeferred first with ⟨⟨mem₁', hcall₁, hkept₁⟩, hlength⟩
  rcases h₂.step_unflagged husable₂ hclear second with ⟨mem₂', hcall₂, _, hholds₂⟩
  have hholds₁ : Holds mem₁'.unflagged list cells := hkept₁.symm ▸ h
  refine ⟨_, mem₁', _, mem₂', hcall₁, hcall₂, ?_⟩
  rw [hholds₁.observe_eq, hholds₂.observe_eq]
  intro heq
  have hlengths := congrArg Prod.snd (Option.some.inj heq)
  simp only at hlengths
  omega

theorem sameResults_cons {twins : List TwinCall} {answer₁ answer₂ : Answer} {mem₁' mem₂' : Memory}
    (hcall₁ : (twin.call.filled twin.first).apply mem₁ list = some (answer₁, mem₁'))
    (hcall₂ : (twin.call.filled twin.second).apply mem₂ list = some (answer₂, mem₂')) :
    SameResults list (twin :: twins) mem₁ mem₂ <-> answer₁ = answer₂ ∧
      observe mem₁' list = observe mem₂' list ∧ SameResults list twins mem₁' mem₂' := by
  rw [SameResults, hcall₁, hcall₂]
  constructor
  · intro h
    rcases h with ⟨answer, mem₁'', mem₂'', hfirst, hsecond, hresults⟩
    cases hfirst
    cases hsecond
    exact ⟨rfl, hresults⟩
  · intro h
    rcases h with ⟨rfl, hresults⟩
    exact ⟨answer₁, mem₁', mem₂', rfl, rfl, hresults⟩

theorem flagsAgree_cons {twins : List TwinCall} {answer₁ answer₂ : Answer} {mem₁' mem₂' : Memory}
    (hcall₁ : (twin.call.filled twin.first).apply mem₁ list = some (answer₁, mem₁'))
    (hcall₂ : (twin.call.filled twin.second).apply mem₂ list = some (answer₂, mem₂')) :
    FlagsAgree list (twin :: twins) mem₁ mem₂ <->
      (forall p, twin.call.target mem₁ list = some p -> (mem₁.FlagSet p <-> mem₂.FlagSet p)) ∧
        FlagsAgree list twins mem₁' mem₂' := by
  rw [FlagsAgree, hcall₁, hcall₂]
  constructor
  · intro h
    exact ⟨h.left, h.right _ _ _ _ rfl rfl⟩
  · intro h
    refine ⟨h.left, fun _ _ _ _ hfirst hsecond => ?_⟩
    cases hfirst
    cases hsecond
    exact h.right

theorem Holds.sameResults_iff {twins : List TwinCall} (h : Holds mem₁.unflagged list cells)
    (hsame : mem₁.unflagged = mem₂.unflagged) (husable : Usable list twins mem₁ mem₂) :
    SameResults list twins mem₁ mem₂ <-> FlagsAgree list twins mem₁ mem₂ := by
  induction twins generalizing mem₁ mem₂ cells with
  | nil => exact Iff.rfl
  | cons twin twins ih =>
      rcases husable with ⟨husable₁, husable₂, husable⟩
      by_cases hagree : twin.call.Deferred mem₁ list <-> twin.call.Deferred mem₂ list
      · rcases h.twins_agree hsame husable₁ husable₂ hagree twin.first twin.second with
          ⟨answer, mem₁', mem₂', cells', hcall₁, hcall₂, hsame', hholds⟩
        have hobserve : observe mem₁' list = observe mem₂' list := by
          rw [← observe_unflagged, hsame', observe_unflagged]
        rw [sameResults_cons hcall₁ hcall₂, flagsAgree_cons hcall₁ hcall₂,
          ih hholds hsame' (husable _ _ _ _ hcall₁ hcall₂)]
        exact ⟨fun hresults => ⟨(flags_agree_iff hsame).mpr hagree, hresults.right.right⟩,
          fun hflags => ⟨rfl, hobserve, hflags.right⟩⟩
      · have hdiffer : exists answer₁ mem₁' answer₂ mem₂',
            (twin.call.filled twin.first).apply mem₁ list = some (answer₁, mem₁') ∧
            (twin.call.filled twin.second).apply mem₂ list = some (answer₂, mem₂') ∧
            observe mem₁' list ≠ observe mem₂' list := by
          by_cases hdeferred : twin.call.Deferred mem₁ list
          · have hclear : ¬twin.call.Deferred mem₂ list := fun hset =>
              hagree ⟨fun _ => hset, fun _ => hdeferred⟩
            exact h.twins_differ hsame husable₁ husable₂ hdeferred hclear _ _
          · have hset : twin.call.Deferred mem₂ list := by
              by_contra hclear
              exact hagree ⟨fun hset => absurd hset hdeferred, fun hset => absurd hset hclear⟩
            rcases Holds.twins_differ (hsame ▸ h) hsame.symm husable₂ husable₁ hset hdeferred
                twin.second twin.first with
              ⟨answer₂, mem₂', answer₁, mem₁', hcall₂, hcall₁, hobserve⟩
            exact ⟨answer₁, mem₁', answer₂, mem₂', hcall₁, hcall₂, hobserve.symm⟩
        rcases hdiffer with ⟨answer₁, mem₁', answer₂, mem₂', hcall₁, hcall₂, hobserve⟩
        rw [sameResults_cons hcall₁ hcall₂, flagsAgree_cons hcall₁ hcall₂]
        exact ⟨fun hresults => absurd hresults.right.left hobserve,
          fun hflags => absurd ((flags_agree_iff hsame).mp hflags.left) hagree⟩

/-- Two runs that differ only in what their blocks held give the same results
exactly when the flags of the items to be removed agree. -/
theorem results_same_iff_flags_agree {start : Memory} {twins : List TwinCall}
    (hstart : Created start list) (husable : Usable list twins start start) :
    SameResults list twins start start <-> FlagsAgree list twins start start := by
  have hclean : Created start.unflagged list :=
    ⟨hstart.list_ne, unflagged_items_eq_none_iff.mpr hstart.null, hstart.header,
      fun p hp => hstart.bound p (mt unflagged_items_eq_none_iff.mpr hp)⟩
  exact hclean.holds.sameResults_iff rfl husable

def addAndDelete (first second : Int) : List TwinCall :=
  [⟨.add 5 (blockAt 64), { zeros with foreach := first }, { zeros with foreach := second }⟩,
    ⟨.delete 5, zeros, zeros⟩]

theorem addAndDelete_usable (first second : Int) :
    Usable 1 (addAndDelete first second) oneList oneList := by
  have hunused : (blockAt 64).Usable oneList := Or.inr ⟨rfl, by decide⟩
  exact ⟨hunused, hunused, fun _ _ _ _ _ _ => ⟨trivial, trivial, fun _ _ _ _ _ _ => trivial⟩⟩

theorem results_same_flagless :
    Usable 1 (addAndDelete 0 7) oneList oneList ∧
      SameResults 1 (addAndDelete 0 7) oneList oneList := by
  have husable := addAndDelete_usable 0 7
  refine ⟨husable, (results_same_iff_flags_agree oneList_created husable).mpr ?_⟩
  refine (flagsAgree_cons rfl rfl).mpr ⟨fun p hp => (by cases hp), ?_⟩
  refine (flagsAgree_cons rfl rfl).mpr ⟨fun p hp => ?_, trivial⟩
  cases hp
  constructor
  · intro hset
    rcases hset with ⟨item, hitem, hflag⟩
    cases hitem
    exact absurd hflag (by decide)
  · intro hset
    rcases hset with ⟨item, hitem, hflag⟩
    cases hitem
    exact absurd hflag (by decide)

/-- With a set flag in one of the blocks the item stays in that list. -/
theorem results_differ : Usable 1 (addAndDelete 0 1) oneList oneList ∧
    ¬SameResults 1 (addAndDelete 0 1) oneList oneList := by
  refine ⟨addAndDelete_usable 0 1, fun hresults => ?_⟩
  rw [addAndDelete, sameResults_cons rfl rfl] at hresults
  rcases hresults.right.right with ⟨answer, mem₁', mem₂', hfirst, hsecond, hobserve, _⟩
  cases hfirst
  cases hsecond
  exact absurd hobserve (by decide)

end Twins

end LinkedList
end MyLibs
