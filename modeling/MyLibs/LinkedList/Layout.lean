import Mathlib.Data.Finset.Card
import Mathlib.Data.Finset.Image
import Mathlib.Logic.Relation
import MyLibs.Foundation.DoublyLinked
import MyLibs.LinkedList.Model

/-!
# How items are linked

The links of the items and the rest of them are looked at apart: a function
that links or unlinks an item writes links only, and the header.
-/

namespace MyLibs
namespace LinkedList

open Foundation

def Memory.links (mem : Memory) : Links Ptr :=
  fun p => (mem.items p).map fun item => (item.next, item.prev)

def Memory.payload (mem : Memory) : Ptr -> Option (Ptr × Ptr × Int) :=
  fun p => (mem.items p).map fun item => (item.data, item.list, item.foreach)

variable {mem mem' : Memory} {p q list : Ptr} {item : MyListIter} {header : MyList}

theorem links_eq_none_iff : mem.links p = none <-> mem.items p = none := by
  simp [Memory.links]

theorem payload_eq_none_iff : mem.payload p = none <-> mem.items p = none := by
  simp [Memory.payload]

theorem exists_item {next prev data : Ptr} {flag : Int}
    (hlinks : mem.links p = some (next, prev))
    (hpayload : mem.payload p = some (data, list, flag)) :
    mem.items p = some
      { data := data, list := list, next := next, prev := prev, foreach := flag } := by
  rcases Option.map_eq_some_iff.mp hlinks with ⟨item, hitem, hpair⟩
  rw [Memory.payload, hitem] at hpayload
  cases hpair
  cases hpayload
  exact hitem

/-!
## Writes

A write is known by what it does to the links, to the payloads and to the
headers.
-/

structure Kept (mem mem' : Memory) (list : Ptr) : Prop where
  payload_eq : mem'.payload = mem.payload
  lists_eq : forall l, l ≠ list -> mem'.lists l = mem.lists l
  log_eq : mem'.log = mem.log

theorem Kept.trans {mem'' : Memory} (hfirst : Kept mem mem' list)
    (hsecond : Kept mem' mem'' list) : Kept mem mem'' list where
  payload_eq := hsecond.payload_eq.trans hfirst.payload_eq
  lists_eq := fun l hl => (hsecond.lists_eq l hl).trans (hfirst.lists_eq l hl)
  log_eq := hsecond.log_eq.trans hfirst.log_eq

theorem writeItem_of_some (hitem : mem.items p = some item)
    (f : MyListIter -> MyListIter) : mem.writeItem p f =
      some { mem with items := Function.update mem.items p (some (f item)) } := by
  rw [Memory.writeItem, hitem]
  rfl

theorem writeList_of_some (hlist : mem.lists list = some header) (f : MyList -> MyList) :
    mem.writeList list f =
      some { mem with lists := Function.update mem.lists list (some (f header)) } := by
  rw [Memory.writeList, hlist]
  rfl

theorem links_update (p : Ptr) (item : MyListIter) :
    Memory.links { mem with items := Function.update mem.items p (some item) } =
      Function.update mem.links p (some (item.next, item.prev)) := by
  funext q
  by_cases hq : q = p
  · simp [Memory.links, hq]
  · simp [Memory.links, Function.update_of_ne hq]

theorem payload_update (p : Ptr) (item : MyListIter) :
    Memory.payload { mem with items := Function.update mem.items p (some item) } =
      Function.update mem.payload p (some (item.data, item.list, item.foreach)) := by
  funext q
  by_cases hq : q = p
  · simp [Memory.payload, hq]
  · simp [Memory.payload, Function.update_of_ne hq]

theorem kept_writeItem (hitem : mem.items p = some item) {item' : MyListIter}
    (hdata : item'.data = item.data) (hlist : item'.list = item.list)
    (hflag : item'.foreach = item.foreach) :
    Kept mem { mem with items := Function.update mem.items p (some item') } list where
  payload_eq := by
    rw [payload_update, hdata, hlist, hflag]
    have hself : mem.payload p = some (item.data, item.list, item.foreach) := by
      simp [Memory.payload, hitem]
    rw [← hself, Function.update_eq_self]
  lists_eq := fun _ _ => rfl
  log_eq := rfl

theorem kept_writeList (header : MyList) :
    Kept mem { mem with lists := Function.update mem.lists list (some header) } list where
  payload_eq := rfl
  lists_eq := fun _ hl => Function.update_of_ne hl ..
  log_eq := rfl

theorem writeList_spec (hlist : mem.lists list = some header) (f : MyList -> MyList) :
    exists mem', mem.writeList list f = some mem' ∧ mem'.links = mem.links ∧
      mem'.lists list = some (f header) ∧ Kept mem mem' list :=
  ⟨_, writeList_of_some hlist f, rfl, Function.update_self .., kept_writeList _⟩

theorem writeNextOrHead_spec (hnull : mem.items NULL = none)
    (hlist : mem.lists list = some header) (hp : p = NULL ∨ mem.items p ≠ none)
    (next : Ptr) : exists mem', mem.writeNextOrHead list p next = some mem' ∧
      mem'.links = setNext mem.links p next ∧
      mem'.lists list = some { header with head := if p = NULL then next else header.head } ∧
      Kept mem mem' list := by
  rcases eq_or_ne p NULL with hzero | hne
  · subst hzero
    refine ⟨_, writeList_of_some hlist _, ?_, ?_, kept_writeList _⟩
    · exact (setNext_none next (links_eq_none_iff.mpr hnull)).symm
    · rw [if_pos rfl]
      exact Function.update_self ..
  · rcases Option.ne_none_iff_exists'.mp (hp.resolve_left hne) with ⟨item, hitem⟩
    have hwrite : mem.writeNextOrHead list p next = some
        { mem with items := Function.update mem.items p (some { item with next := next }) } := by
      rw [Memory.writeNextOrHead, if_neg hne]
      exact writeItem_of_some hitem _
    refine ⟨_, hwrite, ?_, ?_, kept_writeItem hitem rfl rfl rfl⟩
    · rw [links_update, setNext, Memory.links, hitem]
      rfl
    · rw [if_neg hne]
      exact hlist

theorem writePrevOrTail_spec (hnull : mem.items NULL = none)
    (hlist : mem.lists list = some header) (hp : p = NULL ∨ mem.items p ≠ none)
    (prev : Ptr) : exists mem', mem.writePrevOrTail list p prev = some mem' ∧
      mem'.links = setPrev mem.links p prev ∧
      mem'.lists list = some { header with tail := if p = NULL then prev else header.tail } ∧
      Kept mem mem' list := by
  rcases eq_or_ne p NULL with hzero | hne
  · subst hzero
    refine ⟨_, writeList_of_some hlist _, ?_, ?_, kept_writeList _⟩
    · exact (setPrev_none prev (links_eq_none_iff.mpr hnull)).symm
    · rw [if_pos rfl]
      exact Function.update_self ..
  · rcases Option.ne_none_iff_exists'.mp (hp.resolve_left hne) with ⟨item, hitem⟩
    have hwrite : mem.writePrevOrTail list p prev = some
        { mem with items := Function.update mem.items p (some { item with prev := prev }) } := by
      rw [Memory.writePrevOrTail, if_neg hne]
      exact writeItem_of_some hitem _
    refine ⟨_, hwrite, ?_, ?_, kept_writeItem hitem rfl rfl rfl⟩
    · rw [links_update, setPrev, Memory.links, hitem]
      rfl
    · rw [if_neg hne]
      exact hlist

theorem Kept.items_ne_none (h : Kept mem mem' list) :
    mem'.items p ≠ none <-> mem.items p ≠ none := by
  rw [Ne, ← payload_eq_none_iff, h.payload_eq, payload_eq_none_iff]

/-!
## Lists as sequences
-/

def addrs (cells : List (Ptr × Ptr)) : List Ptr :=
  cells.map Prod.fst

def headOf (cells : List (Ptr × Ptr)) : Ptr :=
  (addrs cells).headD NULL

def tailOf (cells : List (Ptr × Ptr)) : Ptr :=
  (addrs cells).getLastD NULL

/-- The list at an address holds exactly these items, outside any walk. -/
structure Holds (mem : Memory) (list : Ptr) (cells : List (Ptr × Ptr)) : Prop where
  list_ne : list ≠ NULL
  null : mem.items NULL = none
  header : mem.lists list = some
    { head := headOf cells, tail := tailOf cells, length := cells.length }
  chain : Doubly mem.links NULL (headOf cells) (addrs cells) NULL
  payload : forall c, c ∈ cells -> mem.payload c.1 = some (c.2, list, 0)
  bound : forall p, mem.items p ≠ none -> p < 2 ^ 64

variable {cells first rest : List (Ptr × Ptr)} {c : Ptr × Ptr}

theorem addrs_append : addrs (first ++ rest) = addrs first ++ addrs rest :=
  List.map_append

theorem addrs_eq_nil_iff : addrs cells = [] <-> cells = [] :=
  List.map_eq_nil_iff

theorem headOf_append_cons : headOf (first ++ c :: rest) =
    if first = [] then c.1 else headOf (first ++ rest) := by
  cases first with
  | nil => rfl
  | cons d first => rfl

theorem tailOf_append_cons : tailOf (first ++ c :: rest) =
    if rest = [] then c.1 else tailOf (first ++ rest) := by
  cases rest with
  | nil =>
      rw [if_pos rfl, tailOf, addrs_append]
      exact List.getLastD_concat
  | cons d rest =>
      rw [if_neg (fun h => by cases h)]
      simp [tailOf, addrs, List.getLastD_eq_getLast?]

theorem exists_tailOf (hne : first ≠ []) : exists c, c ∈ first ∧ tailOf first = c.1 := by
  rcases List.eq_nil_or_concat first with hempty | ⟨before, last, hsplit⟩
  · exact absurd hempty hne
  · rw [List.concat_eq_append] at hsplit
    subst hsplit
    refine ⟨last, List.mem_append_right _ (List.mem_cons_self ..), ?_⟩
    rw [tailOf, addrs_append]
    exact List.getLastD_concat

theorem length_lt_of_nodup {n : Nat} (hn : 0 < n) {l : List Ptr} (hnodup : l.Nodup)
    (hl : forall p, p ∈ l -> p ≠ NULL ∧ p < n) : l.length < n := by
  have hsub : l.toFinset ⊆ (Finset.range n).erase NULL := by
    intro p hp
    rcases hl p (List.mem_toFinset.mp hp) with ⟨hne, hlt⟩
    exact Finset.mem_erase.mpr ⟨hne, Finset.mem_range.mpr hlt⟩
  have hnull : NULL ∈ Finset.range n := Finset.mem_range.mpr hn
  have hcard := Finset.card_le_card hsub
  rw [List.toFinset_card_of_nodup hnodup, Finset.card_erase_of_mem hnull,
    Finset.card_range] at hcard
  exact Nat.lt_of_le_pred hn hcard

namespace Holds

theorem links_null (h : Holds mem list cells) : mem.links NULL = none :=
  links_eq_none_iff.mpr h.null

theorem exists_of_mem (h : Holds mem list cells) (hc : c ∈ cells) :
    mem.items c.1 ≠ none := by
  rw [Ne, ← payload_eq_none_iff, h.payload c hc]
  exact Option.some_ne_none _

theorem addr_ne (h : Holds mem list cells) (hc : c ∈ cells) : c.1 ≠ NULL := by
  intro heq
  have hne := h.exists_of_mem hc
  rw [heq] at hne
  exact hne h.null

theorem headOf_eq_null_iff (h : Holds mem list cells)
    (hsub : forall c, c ∈ rest -> c ∈ cells) : headOf rest = NULL <-> rest = [] := by
  cases rest with
  | nil => exact ⟨fun _ => rfl, fun _ => rfl⟩
  | cons d rest =>
      constructor
      · intro heq
        exact absurd heq (h.addr_ne (hsub d (List.mem_cons_self ..)))
      · intro heq
        cases heq

theorem tailOf_eq_null_iff (h : Holds mem list cells)
    (hsub : forall c, c ∈ first -> c ∈ cells) : tailOf first = NULL <-> first = [] := by
  constructor
  · intro heq
    by_contra hne
    rcases exists_tailOf hne with ⟨c, hc, htail⟩
    exact h.addr_ne (hsub c hc) (htail.symm.trans heq)
  · intro heq
    rw [heq]
    rfl

theorem nodup (h : Holds mem list cells) : (addrs cells).Nodup :=
  h.chain.nodup h.links_null

/-- The items have different addresses, so `length` never wraps. -/
theorem length_lt (h : Holds mem list cells) : cells.length < 2 ^ 64 := by
  have hbelow := length_lt_of_nodup (Nat.two_pow_pos 64) h.nodup
  rw [addrs, List.length_map] at hbelow
  apply hbelow
  intro p hp
  rcases List.mem_map.mp hp with ⟨c, hc, rfl⟩
  exact ⟨h.addr_ne hc, h.bound _ (h.exists_of_mem hc)⟩

theorem headOf_exists (h : Holds mem list cells)
    (hsub : forall c, c ∈ rest -> c ∈ cells) :
    headOf rest = NULL ∨ mem.items (headOf rest) ≠ none := by
  cases rest with
  | nil => exact Or.inl rfl
  | cons d rest => exact Or.inr (h.exists_of_mem (hsub d (List.mem_cons_self ..)))

theorem tailOf_exists (h : Holds mem list cells)
    (hsub : forall c, c ∈ first -> c ∈ cells) :
    tailOf first = NULL ∨ mem.items (tailOf first) ≠ none := by
  by_cases hempty : first = []
  · exact Or.inl (by rw [hempty]; rfl)
  · rcases exists_tailOf hempty with ⟨c, hc, htail⟩
    rw [htail]
    exact Or.inr (h.exists_of_mem (hsub c hc))

theorem item_at (h : Holds mem list (first ++ c :: rest)) : mem.items c.1 = some
    { data := c.2
      list := list
      next := headOf rest
      prev := tailOf first
      foreach := 0 } := by
  have hchain := h.chain
  rw [addrs_append] at hchain
  have hpayload := h.payload c (List.mem_append_right _ (List.mem_cons_self ..))
  exact exists_item hchain.links_at hpayload

end Holds

/-!
## Reachable items
-/

def Memory.Reachable (mem : Memory) (list p : Ptr) : Prop :=
  p ≠ NULL ∧ exists header, mem.lists list = some header ∧
    Relation.ReflTransGen (fun q r => exists item, mem.items q = some item ∧ item.next = r)
      header.head p

theorem Holds.reaches_iff (h : Holds mem list (first ++ rest)) :
    Relation.ReflTransGen (fun q r => exists item, mem.items q = some item ∧ item.next = r)
      (headOf rest) p <-> p = NULL ∨ p ∈ addrs rest := by
  induction rest generalizing first with
  | nil =>
      constructor
      · intro hreach
        rcases hreach.cases_head with hp | ⟨q, ⟨item, hitem, _⟩, _⟩
        · exact Or.inl hp.symm
        · rw [show headOf [] = NULL from rfl, h.null] at hitem
          cases hitem
      · intro hp
        rcases hp with hp | hp
        · rw [hp]
          exact .refl
        · cases hp
  | cons c rest ih =>
      have hitem := h.item_at
      have hbehind : Holds mem list ((first ++ [c]) ++ rest) := by
        rw [List.append_assoc]
        exact h
      constructor
      · intro hreach
        rcases hreach.cases_head with hp | ⟨q, ⟨item, hitem', hnext⟩, hrest⟩
        · exact Or.inr (hp ▸ List.mem_cons_self ..)
        · have hitem' : mem.items c.1 = some item := hitem'
          rw [hitem] at hitem'
          cases hitem'
          subst hnext
          exact ((ih hbehind).mp hrest).imp_right (List.mem_cons_of_mem c.1)
      · intro hp
        have hstep : exists item, mem.items c.1 = some item ∧ item.next = headOf rest :=
          ⟨_, hitem, rfl⟩
        rcases hp with hp | hp
        · exact ((ih hbehind).mpr (Or.inl hp)).head hstep
        · rcases List.mem_cons.mp hp with hp | hp
          · rw [hp]
            exact .refl
          · exact ((ih hbehind).mpr (Or.inr hp)).head hstep

theorem Holds.reachable_iff (h : Holds mem list cells) :
    mem.Reachable list p <-> p ∈ addrs cells := by
  have hbehind : Holds mem list ([] ++ cells) := h
  rw [Memory.Reachable, h.header]
  constructor
  · intro hreach
    rcases hreach with ⟨hne, header, hheader, hpath⟩
    cases hheader
    exact (hbehind.reaches_iff.mp hpath).resolve_left hne
  · intro hp
    constructor
    · rcases List.mem_map.mp hp with ⟨c, hc, heq⟩
      rw [← heq]
      exact h.addr_ne hc
    · exact ⟨_, rfl, hbehind.reaches_iff.mpr (Or.inr hp)⟩

end LinkedList
end MyLibs
