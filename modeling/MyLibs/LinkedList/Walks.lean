import MyLibs.Foundation.NestedWalk
import MyLibs.LinkedList.Operations

/-!
# Walks over a list

`my_list_foreach` and `my_list_rforeach` as walks of flagged items.
-/

namespace MyLibs
namespace LinkedList

open Foundation

variable {τ : Type} {mem mem' : Memory} {list p q : Ptr} {cells : List (Ptr × Ptr)}
  {next : MyListIter -> Ptr} {active : List Ptr} {item : MyListIter}

/-!
## Flags
-/

def flags : Flags Ptr Memory where
  flagged := fun mem p => exists item, mem.items p = some item ∧ item.foreach ≠ 0
  freed := fun mem => mem.log.length

theorem flagged_iff : flags.flagged mem p <->
    exists data list flag, mem.payload p = some (data, list, flag) ∧ flag ≠ 0 := by
  constructor
  · intro h
    rcases h with ⟨item, hitem, hflag⟩
    exact ⟨item.data, item.list, item.foreach, by simp [Memory.payload, hitem], hflag⟩
  · intro h
    rcases h with ⟨data, list, flag, hpayload, hflag⟩
    rcases Option.map_eq_some_iff.mp hpayload with ⟨item, hitem, hfields⟩
    cases hfields
    exact ⟨item, hitem, hflag⟩

def Memory.marked (mem : Memory) (active : List Ptr) : Memory :=
  { mem with items := fun p => (mem.items p).map fun item =>
      if p ∈ active then { item with foreach := 1 } else item }

theorem marked_nil : mem.marked [] = mem := by
  simp [Memory.marked]

theorem marked_items (hitem : mem.items p = some item) : (mem.marked active).items p =
    some (if p ∈ active then { item with foreach := 1 } else item) := by
  simp [Memory.marked, hitem]

theorem update_marked {flag : Int} {active' : List Ptr} (hitem : mem.items p = some item)
    (hself : (if p ∈ active' then { item with foreach := 1 } else item) =
      { item with foreach := flag })
    (hrest : forall q, q ≠ p -> (q ∈ active <-> q ∈ active')) :
    (mem.marked active).writeItem p (fun item => { item with foreach := flag }) =
      some (mem.marked active') := by
  rw [writeItem_of_some (marked_items hitem)]
  have hitems : Function.update (mem.marked active).items p
      (some { item with foreach := flag }) = (mem.marked active').items := by
    funext q
    by_cases hq : q = p
    · rw [hq, Function.update_self, marked_items hitem, hself]
    · rw [Function.update_of_ne hq]
      simp only [Memory.marked, hrest q hq]
  have hflag : ({ (if p ∈ active then { item with foreach := 1 } else item) with
      foreach := flag } : MyListIter) = { item with foreach := flag } := by
    split <;> rfl
  rw [hflag, hitems]
  rfl

/-!
## What a write does, if it succeeds
-/

def Silent (mem mem' : Memory) : Prop :=
  mem'.payload = mem.payload ∧ mem'.log = mem.log

theorem writeList_silent {f : MyList -> MyList} (h : mem.writeList list f = some mem') :
    Silent mem mem' := by
  rcases Option.map_eq_some_iff.mp h with ⟨header, _, hmem⟩
  subst hmem
  exact ⟨rfl, rfl⟩

theorem writeItem_silent (hitem : mem.items p = some item) {item' : MyListIter}
    (hdata : item'.data = item.data) (hlist : item'.list = item.list)
    (hflag : item'.foreach = item.foreach) :
    Silent mem { mem with items := Function.update mem.items p (some item') } :=
  have hkept : Kept mem _ NULL := kept_writeItem hitem hdata hlist hflag
  ⟨hkept.payload_eq, hkept.log_eq⟩

theorem writeItem_eq_some {f : MyListIter -> MyListIter} (h : mem.writeItem p f = some mem') :
    exists item, mem.items p = some item ∧
      mem' = { mem with items := Function.update mem.items p (some (f item)) } := by
  rcases Option.map_eq_some_iff.mp h with ⟨item, hitem, hmem⟩
  exact ⟨item, hitem, hmem.symm⟩

theorem writePrevOrTail_silent {prev : Ptr} (h : mem.writePrevOrTail list p prev = some mem') :
    Silent mem mem' := by
  rw [Memory.writePrevOrTail] at h
  split at h
  · exact writeList_silent h
  · rcases writeItem_eq_some h with ⟨item, hitem, hmem⟩
    subst hmem
    exact writeItem_silent hitem rfl rfl rfl

theorem writeNextOrHead_silent {next : Ptr} (h : mem.writeNextOrHead list p next = some mem') :
    Silent mem mem' := by
  rw [Memory.writeNextOrHead] at h
  split at h
  · exact writeList_silent h
  · rcases writeItem_eq_some h with ⟨item, hitem, hmem⟩
    subst hmem
    exact writeItem_silent hitem rfl rfl rfl

theorem Silent.trans {mem'' : Memory} (hfirst : Silent mem mem') (hsecond : Silent mem' mem'') :
    Silent mem mem'' :=
  ⟨hsecond.left.trans hfirst.left, hsecond.right.trans hfirst.right⟩

theorem myListIterDelete_freed (hp : p ≠ NULL) (hitem : mem.items p = some item)
    (hflag : item.foreach = 0) (h : myListIterDelete mem p = some mem') :
    mem'.payload = Function.update mem.payload p none ∧ mem'.log = p :: mem.log := by
  have hne : ¬item.foreach = 1 := by
    rw [hflag]
    exact Int.zero_ne_one
  rw [myListIterDelete, if_neg hp] at h
  simp only [hitem, Option.bind_eq_bind, Option.bind_some, if_neg hne,
    Option.bind_eq_some_iff] at h
  rcases h with ⟨mem₁, hfirst, mem₂, hsecond, mem₃, hthird, hmem⟩
  have hsilent := ((writePrevOrTail_silent hfirst).trans
    (writeNextOrHead_silent hsecond)).trans (writeList_silent hthird)
  cases hmem
  constructor
  · rw [update_none_payload, hsilent.left]
  · exact congrArg (p :: ·) hsilent.right

/-!
## One item of a walk
-/

def cursor (next : MyListIter -> Ptr) : Cursor Ptr Ptr Memory where
  nil := NULL
  arrive := fun p mem => mem.writeItem p fun iter => { iter with foreach := 1 }
  content := fun p mem => (mem.items p).map MyListIter.data
  leave := leaveItem next

theorem leaveItem_eq_some (h : leaveItem next p mem = some (q, mem')) :
    exists item, mem.items p = some item ∧ q = next item ∧
      (item.foreach = 0 ∧ myListIterDelete mem p = some mem' ∨
        item.foreach ≠ 0 ∧
          mem.writeItem p (fun iter => { iter with foreach := 0 }) = some mem') := by
  simp only [leaveItem, Option.bind_eq_bind, Option.bind_eq_some_iff] at h
  rcases h with ⟨item, hitem, hleave⟩
  split at hleave
  · rename_i hflag
    rcases Option.map_eq_some_iff.mp hleave with ⟨mem₁, hdelete, hpair⟩
    cases hpair
    exact ⟨item, hitem, rfl, Or.inl ⟨hflag, hdelete⟩⟩
  · rename_i hflag
    rcases Option.map_eq_some_iff.mp hleave with ⟨mem₁, hwrite, hpair⟩
    cases hpair
    exact ⟨item, hitem, rfl, Or.inr ⟨hflag, hwrite⟩⟩

theorem flagged_of_update {new : Option (Ptr × Ptr × Int)}
    (hpayload : mem'.payload = Function.update mem.payload p new)
    (hnew : forall data list flag, new = some (data, list, flag) -> flag = 0) :
    ¬flags.flagged mem' p ∧ forall q, flags.flagged mem' q -> flags.flagged mem q := by
  have hself : ¬flags.flagged mem' p := by
    rw [flagged_iff, hpayload, Function.update_self]
    intro h
    rcases h with ⟨data, list, flag, hsome, hflag⟩
    exact hflag (hnew data list flag hsome)
  constructor
  · exact hself
  · intro q hq
    have hne : q ≠ p := by
      intro heq
      rw [heq] at hq
      exact hself hq
    rw [flagged_iff, hpayload, Function.update_of_ne hne, ← flagged_iff] at hq
    exact hq

theorem leaveItem_unflags (hp : p ≠ NULL) (h : leaveItem next p mem = some (q, mem')) :
    (¬flags.flagged mem' p ∧ forall q, flags.flagged mem' q -> flags.flagged mem q) ∧
      (flags.flagged mem p ∧ mem'.log = mem.log ∨ mem'.log = p :: mem.log) := by
  rcases leaveItem_eq_some h with ⟨item, hitem, _, ⟨hflag, hdelete⟩ | ⟨hflag, hwrite⟩⟩
  · rcases myListIterDelete_freed hp hitem hflag hdelete with ⟨hpayload, hlog⟩
    constructor
    · exact flagged_of_update hpayload (fun _ _ _ hnone => by cases hnone)
    · exact Or.inr hlog
  · rw [writeItem_of_some hitem] at hwrite
    cases hwrite
    constructor
    · exact flagged_of_update (payload_update p _) (fun _ _ _ hsome => by cases hsome; rfl)
    · exact Or.inl ⟨⟨item, hitem, hflag⟩, rfl⟩

theorem cursor_lawful (next : MyListIter -> Ptr) : (cursor next).Lawful flags where
  arrive_freed := by
    intro p mem mem' h
    rcases writeItem_eq_some h with ⟨item, _, hmem⟩
    rw [hmem]
    rfl
  arrive_flagged := by
    intro p mem mem' h q hne hq
    rcases writeItem_eq_some h with ⟨item, _, hmem⟩
    rw [hmem, flagged_iff, payload_update, Function.update_of_ne hne, ← flagged_iff] at hq
    exact hq
  leave_worse := by
    intro p mem q mem' hp h
    rcases leaveItem_unflags hp h with ⟨hflags, hlog⟩
    constructor
    · rcases hlog with ⟨_, hlog⟩ | hlog
      · exact Nat.le_of_eq (congrArg List.length hlog.symm)
      · show mem.log.length <= mem'.log.length
        rw [hlog]
        exact Nat.le_succ _
    · exact hflags.right
  leave_unflagged := by
    intro p mem q mem' hp h
    exact (leaveItem_unflags hp h).left.left
  leave_freed := by
    intro p mem q mem' hp h hflag
    rcases (leaveItem_unflags hp h).right with ⟨hflagged, _⟩ | hlog
    · exact absurd hflagged hflag
    · show mem.log.length < mem'.log.length
      rw [hlog]
      exact Nat.lt_succ_self _

theorem walkItems_eq (func : MyListFunc τ) (turns : Nat) (p : Ptr) (own : τ) (mem : Memory) :
    walkItems next func turns p own mem =
      ((cursor next).loop func turns p own mem).map Prod.snd := by
  induction turns generalizing p own mem with
  | zero => rfl
  | succ turns ih =>
      by_cases hp : p = NULL
      · rw [walkItems, if_pos hp, Cursor.loop, if_pos (show p = (cursor next).nil from hp)]
        rfl
      · rw [walkItems, if_neg hp, Cursor.loop_succ (show p ≠ (cursor next).nil from hp),
          Cursor.turn]
        cases hwrite : mem.writeItem p fun iter => { iter with foreach := 1 } with
        | none => simp [cursor, hwrite]
        | some mem₁ =>
            cases hitem : mem₁.items p with
            | none => simp [cursor, hwrite, hitem]
            | some iter =>
                simp only [cursor, hwrite, hitem, Option.bind_eq_bind, Option.bind_some,
                  Option.map_bind, Option.bind_assoc, Option.map_some]
                congr 1
                funext called
                simp only [Function.comp_apply, Option.map_bind]
                congr 1
                funext left
                split
                · rfl
                · exact ih ..

/-!
## The items of a list
-/

theorem Holds.item_of_split (h : Holds mem list cells) {first rest : List Ptr}
    (hsplit : addrs cells = first ++ p :: rest) : exists data, mem.items p = some
      { data := data
        list := list
        next := rest.headD NULL
        prev := first.getLastD NULL
        foreach := 0 } := by
  rcases List.map_eq_append_iff.mp hsplit with ⟨before, others, hcells, hbefore, hothers⟩
  rcases List.map_eq_cons_iff.mp hothers with ⟨c, after, hcons, hc, hafter⟩
  rw [hcells, hcons] at h
  refine ⟨c.2, ?_⟩
  rw [← hc, ← hbefore, ← hafter]
  exact h.item_at

theorem Holds.item_unflagged (h : Holds mem list cells) (hp : p ∈ addrs cells) :
    exists item, mem.items p = some item ∧ item.foreach = 0 := by
  rcases List.append_of_mem hp with ⟨first, rest, hsplit⟩
  rcases h.item_of_split hsplit with ⟨data, hitem⟩
  exact ⟨_, hitem, rfl⟩

def Memory.dataAt (mem : Memory) (p : Ptr) : Ptr :=
  ((mem.items p).map MyListIter.data).getD NULL

theorem Holds.covers (h : Holds mem list cells) {path : List Ptr}
    (hpath : forall p, p ∈ path -> p ∈ addrs cells)
    (hnext : forall first p rest, path = first ++ p :: rest -> forall item,
      mem.items p = some item -> next item = rest.headD NULL)
    (hflag : forall item, next { item with foreach := 1 } = next item) :
    (cursor next).Covers mem.marked mem.dataAt path where
  ne_nil := by
    intro p hp
    rcases List.mem_map.mp (hpath p hp) with ⟨c, hc, heq⟩
    rw [← heq]
    exact h.addr_ne hc
  arrive_marked := by
    intro p hp active
    rcases h.item_unflagged (hpath p hp) with ⟨item, hitem, _⟩
    refine update_marked hitem (if_pos (List.mem_cons_self ..)) ?_
    intro q hq
    rw [List.mem_cons, or_iff_right hq]
  content_marked := by
    intro p hp active
    rcases h.item_unflagged (hpath p hp) with ⟨item, hitem, _⟩
    simp only [cursor, marked_items hitem, Option.map_some, Memory.dataAt, hitem, Option.getD_some]
    split <;> rfl
  leave_marked := by
    intro first p rest hsplit active hactive
    have hp : p ∈ addrs cells :=
      hpath p (hsplit ▸ List.mem_append_right _ (List.mem_cons_self ..))
    rcases h.item_unflagged hp with ⟨item, hitem, hzero⟩
    have hwrite : (mem.marked (p :: active)).writeItem p
        (fun item => { item with foreach := 0 }) = some (mem.marked active) := by
      refine update_marked hitem (by rw [if_neg hactive, ← hzero]) ?_
      intro q hq
      rw [List.mem_cons, or_iff_right hq]
    have hmarked : (mem.marked (p :: active)).items p = some { item with foreach := 1 } := by
      rw [marked_items hitem, if_pos (List.mem_cons_self ..)]
    show leaveItem next p (mem.marked (p :: active)) = _
    rw [leaveItem, hmarked]
    simp only [Option.bind_eq_bind, Option.bind_some, if_neg (Int.one_ne_zero), hwrite,
      Option.map_some, hflag, hnext first p rest hsplit item hitem]
    rfl

/-!
## Both walks
-/

inductive Way where
  | foreach
  | rforeach

def Way.walk : Way -> Nat -> Memory -> Ptr -> Option (MyListFunc τ) -> τ -> Option (τ × Memory)
  | .foreach => myListForeach
  | .rforeach => myListRforeach

/-- A callback that only looks at the memory and walks over the list, given the
list and how many turns a walk may take. -/
abbrev ReadOnly (τ : Type) := Callback Way Ptr Memory τ

def walks (turns : Nat) (list : Ptr) : Walks Way Ptr Memory τ :=
  fun way func own mem => way.walk turns mem list (some func) own

def Memory.still (mem : Memory) (cells : List (Ptr × Ptr)) : Still Way Ptr Ptr Memory where
  order
    | .foreach => addrs cells
    | .rforeach => (addrs cells).reverse
  content := mem.dataAt
  marked := mem.marked

theorem headD_reverse (l : List Ptr) : l.reverse.headD NULL = l.getLastD NULL := by
  rw [List.headD_eq_head?_getD, List.head?_reverse, List.getLastD_eq_getLast?]

def Way.first : Way -> MyList -> Ptr
  | .foreach => MyList.head
  | .rforeach => MyList.tail

def Way.follow : Way -> MyListIter -> Ptr
  | .foreach => MyListIter.next
  | .rforeach => MyListIter.prev

theorem walks_eq (turns : Nat) (hlist : list ≠ NULL) (way : Way) (func : MyListFunc τ) (own : τ)
    (mem : Memory) : walks turns list way func own mem =
      (mem.lists list).bind fun header =>
        ((cursor way.follow).loop func turns (way.first header) own mem).map Prod.snd := by
  have hwalk : walks turns list way func own mem =
      walkList way.first way.follow turns mem list (some func) own := by
    cases way with
    | foreach => rfl
    | rforeach => rfl
  rw [hwalk, walkList, if_neg hlist]
  simp only [walkItems_eq]
  rfl

theorem Holds.first_eq (h : Holds mem list cells) (way : Way) : exists header,
    mem.lists list = some header ∧
      way.first header = ((mem.still cells).order way).headD NULL := by
  refine ⟨_, h.header, ?_⟩
  cases way with
  | foreach => rfl
  | rforeach => exact (headD_reverse _).symm

theorem Holds.covers_way (h : Holds mem list cells) (way : Way) :
    (cursor way.follow).Covers mem.marked mem.dataAt ((mem.still cells).order way) := by
  cases way with
  | foreach =>
      apply h.covers
      · exact fun p hp => hp
      · intro first p rest hsplit item hitem
        rcases h.item_of_split hsplit with ⟨data, hitem'⟩
        rw [hitem] at hitem'
        cases hitem'
        rfl
      · exact fun _ => rfl
  | rforeach =>
      apply h.covers
      · exact fun p hp => List.mem_reverse.mp hp
      · intro first p rest hsplit item hitem
        have hback : addrs cells = rest.reverse ++ p :: first.reverse := by
          rw [← List.reverse_reverse (addrs cells)]
          simp only [Memory.still] at hsplit
          rw [hsplit]
          simp
        rcases h.item_of_split hback with ⟨data, hitem'⟩
        rw [hitem] at hitem'
        cases hitem'
        show rest.reverse.getLastD NULL = rest.headD NULL
        rw [← headD_reverse, List.reverse_reverse]
      · exact fun _ => rfl

/-- What a walk over the list does, given what its visits do. -/
theorem Holds.walked (h : Holds mem list cells) {turns : Nat} (hturns : cells.length < turns) :
    Callback.Walked (mem.still cells) flags mem.log.length
      (walks turns list : Walks Way Ptr Memory τ) where
  worse := by
    intro way visit hvisit own s own' s' hwalk
    rw [walks_eq turns h.list_ne, Option.bind_eq_some_iff] at hwalk
    rcases hwalk with ⟨header, _, hloop⟩
    rcases Option.map_eq_some_iff.mp hloop with ⟨⟨r, o, t⟩, hloop, hpair⟩
    cases hpair
    exact (cursor_lawful way.follow).loop_worse hvisit hloop
  quiet := by
    intro way visit answer active own hvisits
    rcases h.first_eq way with ⟨header, hheader, hfirst⟩
    have hlength : ((mem.still cells).order way).length < turns := by
      cases way with
      | foreach => simpa [Memory.still, addrs] using hturns
      | rforeach => simpa [Memory.still, addrs] using hturns
    have hcovers : (cursor way.follow).Covers mem.marked mem.dataAt
        ([] ++ (mem.still cells).order way) := h.covers_way way
    have hloop := hcovers.loop_quiet hlength hvisits
    show walks turns list way visit own (mem.marked active) = _
    rw [walks_eq turns h.list_ne, show (mem.marked active).lists list = some header from hheader,
      Option.bind_some, hfirst]
    exact congrArg (Option.map Prod.snd) hloop
  broken := by
    intro way visit answer active Good own hbreaks hvisits own' s' hwalk
    rcases h.first_eq way with ⟨header, hheader, hfirst⟩
    have hcovers : (cursor way.follow).Covers mem.marked mem.dataAt
        ([] ++ (mem.still cells).order way) := h.covers_way way
    have hmarked : walks turns list way visit own (mem.marked active) = some (own', s') := hwalk
    rw [walks_eq turns h.list_ne, show (mem.marked active).lists list = some header from hheader,
      Option.bind_some, hfirst] at hmarked
    rcases Option.map_eq_some_iff.mp hmarked with ⟨⟨r, o, t⟩, hloop, hpair⟩
    cases hpair
    exact (cursor_lawful way.follow).loop_broken hcovers (fun _ => rfl) hbreaks hvisits hloop

end LinkedList
end MyLibs
