import MyLibs.Foundation.StableSort
import MyLibs.LinkedList.Runs

/-!
# Lists in order

With a callback that says what is strictly after the new data, `my_list_sortadd`
keeps a list in order, and a list that only it built is a stable sort of what it
was given.
-/

namespace MyLibs
namespace LinkedList

open Foundation

/-- The callback tells whether an item's data is strictly after the new data, in
a total preorder. -/
structure TellsAfter (le : Ptr -> Ptr -> Prop) (func : Ptr -> Ptr -> Nat) : Prop where
  total : forall x y, le x y ∨ le y x
  trans : forall x y z, le x y -> le y z -> le x z
  func_ne : forall x d, func x d ≠ 0 <-> le d x ∧ ¬ le x d

def byData (le : Ptr -> Ptr -> Prop) (c d : Ptr × Ptr) : Prop :=
  le c.2 d.2

variable {le : Ptr -> Ptr -> Prop} {func : Ptr -> Ptr -> Nat} {mem : Memory} {list data : Ptr}
  {cells : List (Ptr × Ptr)} {block : Block}

namespace TellsAfter

theorem after_iff (h : TellsAfter le func) (x d : Ptr) :
    decide (0 < func x d) = true <-> le d x ∧ ¬ le x d := by
  rw [decide_eq_true_eq, Nat.pos_iff_ne_zero]
  exact h.func_ne x d

theorem le_of_not_after (h : TellsAfter le func) {x d : Ptr}
    (hnot : decide (0 < func x d) = false) : le x d := by
  by_contra hle
  have hafter := (h.after_iff x d).mpr ⟨(h.total x d).resolve_left hle, hle⟩
  rw [hnot] at hafter
  exact Bool.false_ne_true hafter

theorem func_eq_zero (h : TellsAfter le func) (x d : Ptr) : (func x d == 0) = true <-> le x d := by
  rw [beq_iff_eq]
  constructor
  · intro hzero
    exact h.le_of_not_after (by rw [hzero]; rfl)
  · intro hle
    by_contra hne
    exact ((h.func_ne x d).mp hne).right hle

/-- In a list in order, the items after the data are behind all others. -/
theorem insertBefore_sorted (h : TellsAfter le func) (new : Ptr × Ptr)
    (hsorted : cells.Pairwise (byData le)) :
    exists first rest, cells = first ++ rest ∧
      insertBefore (fun c => decide (0 < func c.2 new.2)) new cells = first ++ new :: rest ∧
      (forall c, c ∈ first -> le c.2 new.2) ∧
      (forall c, c ∈ rest -> le new.2 c.2 ∧ ¬ le c.2 new.2) := by
  induction cells with
  | nil =>
      exact ⟨[], [], rfl, rfl, (fun c hc => by cases hc), (fun c hc => by cases hc)⟩
  | cons c cells ih =>
      rw [List.pairwise_cons] at hsorted
      rcases hsorted with ⟨hc, hcells⟩
      cases hfound : decide (0 < func c.2 new.2) with
      | true =>
          have hafter := (h.after_iff c.2 new.2).mp hfound
          refine ⟨[], c :: cells, rfl, ?_, (fun d hd => by cases hd), ?_⟩
          · rw [insertBefore, if_pos hfound]
            rfl
          · intro d hd
            cases List.mem_cons.mp hd with
            | inl heq => exact heq.symm ▸ hafter
            | inr hmem =>
                have hcd : le c.2 d.2 := hc d hmem
                constructor
                · exact h.trans _ _ _ hafter.left hcd
                · intro hle
                  exact hafter.right (h.trans _ _ _ hcd hle)
      | false =>
          rcases ih hcells with ⟨first, rest, hsplit, hinsert, hfirst, hrest⟩
          refine ⟨c :: first, rest, ?_, ?_, ?_, hrest⟩
          · rw [hsplit]
            rfl
          · rw [insertBefore, if_neg (by rw [hfound]; exact Bool.false_ne_true), hinsert]
            rfl
          · intro d hd
            cases List.mem_cons.mp hd with
            | inl heq => exact heq.symm ▸ h.le_of_not_after hfound
            | inr hmem => exact hfirst d hmem

end TellsAfter

/-!
## One insertion
-/

theorem Holds.sortadd (h : Holds mem list cells) (func : Ptr -> Ptr -> Nat) (data : Ptr)
    (hblock : block.Fresh mem) :
    exists mem', myListSortadd mem list (some func) data block = some (block.address, mem') ∧
      Holds mem' list
        (insertBefore (fun c => decide (0 < func c.2 data)) (block.address, data) cells) := by
  have hallowed : (Call.sortadd (some func) data block).Allowed mem cells := Or.inr hblock
  rcases h.step hallowed with ⟨mem', hcall, hholds, _⟩
  rw [Call.onSequence, insertIf_ne hblock.address_ne] at hholds
  rw [Call.apply, Call.answer] at hcall
  rcases Option.bind_eq_some_iff.mp hcall with ⟨⟨item, after⟩, hsortadd, hanswer⟩
  cases hanswer
  exact ⟨mem', hsortadd, hholds⟩

/-- `my_list_sortadd` puts the data behind every item that is not after it and in
front of every item that is, and the list is in order again. -/
def PutsInOrder (le : Ptr -> Ptr -> Prop) (func : Ptr -> Ptr -> Nat) (mem : Memory) (list : Ptr)
    (cells : List (Ptr × Ptr)) (data : Ptr) (block : Block) : Prop :=
  exists mem' header first rest,
    myListSortadd mem list (some func) data block = some (block.address, mem') ∧
    cells = first ++ rest ∧
    (forall c, c ∈ first -> ¬ (le data c.2 ∧ ¬ le c.2 data)) ∧
    (forall c, c ∈ rest -> le data c.2 ∧ ¬ le c.2 data) ∧
    WellFormed mem' list header (first ++ (block.address, data) :: rest) ∧
    (first ++ (block.address, data) :: rest).Pairwise (byData le)

theorem TellsAfter.putsInOrder (hfunc : TellsAfter le func) (h : Holds mem list cells)
    (hsorted : cells.Pairwise (byData le)) (hblock : block.Fresh mem) :
    PutsInOrder le func mem list cells data block := by
  rcases h.sortadd func data hblock with ⟨mem', hsortadd, hholds⟩
  rcases hfunc.insertBefore_sorted (block.address, data) hsorted with
    ⟨first, rest, hsplit, hinsert, hfirst, hrest⟩
  rw [hinsert] at hholds
  refine ⟨mem', _, first, rest, hsortadd, hsplit, ?_, hrest, hholds.wellFormed, ?_⟩
  · intro c hc hafter
    exact hafter.right (hfirst c hc)
  · rw [hsplit] at hsorted
    exact StablySorted.pairwise_insert hsorted hfirst fun c hc => (hrest c hc).left

/-!
## A whole sequence
-/

def sortaddAll (list : Ptr) (func : Ptr -> Ptr -> Nat) :
    List (Ptr × Block) -> Memory -> Option Memory
  | [], mem => some mem
  | (data, block) :: inputs, mem => do
      let (_, mem) <- myListSortadd mem list (some func) data block
      sortaddAll list func inputs mem

def Succeeds (list : Ptr) (func : Ptr -> Ptr -> Nat) : List (Ptr × Block) -> Memory -> Prop
  | [], _ => True
  | (data, block) :: inputs, mem => block.Fresh mem ∧
      forall item mem', myListSortadd mem list (some func) data block = some (item, mem') ->
        Succeeds list func inputs mem'

def madeFrom (inputs : List (Ptr × Block)) : List (Ptr × Ptr) :=
  inputs.map fun input => (input.2.address, input.1)

theorem TellsAfter.sortaddAll (hfunc : TellsAfter le func) {inputs : List (Ptr × Block)}
    {made : List (Ptr × Ptr)} (h : Holds mem list cells)
    (hsorted : StablySorted (byData le) made cells) (hroom : Succeeds list func inputs mem) :
    exists mem' cells', sortaddAll list func inputs mem = some mem' ∧ Holds mem' list cells' ∧
      StablySorted (byData le) (made ++ madeFrom inputs) cells' := by
  induction inputs generalizing mem cells made with
  | nil =>
      refine ⟨mem, cells, rfl, h, ?_⟩
      rw [madeFrom, List.map_nil, List.append_nil]
      exact hsorted
  | cons input inputs ih =>
      rcases input with ⟨data, block⟩
      rcases hroom with ⟨hblock, hrest⟩
      rcases h.sortadd func data hblock with ⟨mem₁, hsortadd, hholds⟩
      rcases hfunc.insertBefore_sorted (block.address, data) hsorted.sorted with
        ⟨first, rest, hsplit, hinsert, hfirst, hbehind⟩
      rw [hinsert] at hholds
      rw [hsplit] at hsorted
      rcases ih hholds (hsorted.insert hfirst hbehind) (hrest _ _ hsortadd) with
        ⟨mem', cells', hall, hholds', hsorted'⟩
      refine ⟨mem', cells', ?_, hholds', ?_⟩
      · rw [LinkedList.sortaddAll, hsortadd, Option.bind_eq_bind, Option.bind_some]
        exact hall
      · rw [madeFrom, List.map_cons, ← List.singleton_append, ← List.append_assoc]
        exact hsorted'

/-- The list is built, can be walked both ways, and its items are the stable sort
of those that were made, as its data are of the data given. -/
def SortsStably (le : Ptr -> Ptr -> Prop) (func : Ptr -> Ptr -> Nat) (start : Memory)
    (list : Ptr) (inputs : List (Ptr × Block)) : Prop :=
  exists mem header cells, sortaddAll list func inputs start = some mem ∧
    WellFormed mem list header cells ∧ StablySorted (byData le) (madeFrom inputs) cells ∧
    cells.map Prod.snd = (inputs.map Prod.fst).mergeSort fun x d => func x d == 0

theorem TellsAfter.mergeSort (hfunc : TellsAfter le func) (xs : List Ptr) :
    StablySorted le xs (xs.mergeSort fun x d => func x d == 0) := by
  have hle : (fun x d => (func x d == 0) = true) = le :=
    funext fun x => funext fun d => propext (hfunc.func_eq_zero x d)
  have hsort : StablySorted (fun x d => (func x d == 0) = true) xs
      (xs.mergeSort fun x d => func x d == 0) := by
    apply StablySorted.mergeSort
    · intro x y
      rw [hfunc.func_eq_zero, hfunc.func_eq_zero]
      exact hfunc.total x y
    · intro x y z
      rw [hfunc.func_eq_zero, hfunc.func_eq_zero, hfunc.func_eq_zero]
      exact hfunc.trans x y z
  rwa [hle] at hsort

theorem TellsAfter.sortsStably (hfunc : TellsAfter le func) {start : Memory}
    {inputs : List (Ptr × Block)} (hstart : Created start list)
    (hroom : Succeeds list func inputs start) : SortsStably le func start list inputs := by
  rcases hfunc.sortaddAll hstart.holds StablySorted.nil hroom with
    ⟨mem, cells, hall, hholds, hsorted⟩
  rw [List.nil_append] at hsorted
  refine ⟨mem, _, cells, hall, hholds.wellFormed, hsorted, ?_⟩
  have hdata : StablySorted le ((madeFrom inputs).map Prod.snd) (cells.map Prod.snd) :=
    hsorted.map Prod.snd
  have hgiven : (madeFrom inputs).map Prod.snd = inputs.map Prod.fst := by
    rw [madeFrom, List.map_map]
    rfl
  rw [hgiven] at hdata
  exact hdata.unique hfunc.total hfunc.trans (hfunc.mergeSort _)

/-- `my_list_sortadd` is a stable insertion sort. -/
theorem list_sortadd_sorts_stably (hfunc : TellsAfter le func) :
    (forall (mem : Memory) (list : Ptr) (cells : List (Ptr × Ptr)) (data : Ptr) (block : Block),
      Holds mem list cells -> cells.Pairwise (byData le) -> block.Fresh mem ->
        PutsInOrder le func mem list cells data block) ∧
    forall (start : Memory) (list : Ptr) (inputs : List (Ptr × Block)), Created start list ->
      Succeeds list func inputs start -> SortsStably le func start list inputs :=
  ⟨fun _ _ _ _ _ h hsorted hblock => hfunc.putsInOrder h hsorted hblock,
    fun _ _ _ hstart hroom => hfunc.sortsStably hstart hroom⟩

def laterTen (x d : Ptr) : Nat :=
  if d / 10 < x / 10 then 1 else 0

theorem laterTen_tellsAfter : TellsAfter (fun x y => x / 10 <= y / 10) laterTen where
  total := fun x y => Nat.le_total (x / 10) (y / 10)
  trans := fun x y z => Nat.le_trans
  func_ne := by
    intro x d
    rw [laterTen, Nat.not_le]
    split
    · rename_i hlt
      exact ⟨fun _ => ⟨Nat.le_of_lt hlt, hlt⟩, fun _ => Nat.one_ne_zero⟩
    · rename_i hnot
      exact ⟨fun h => absurd rfl h, fun h => absurd h.right hnot⟩

def threeInputs : List (Ptr × Block) :=
  [(25, blockAt 64), (12, blockAt 128), (11, blockAt 192)]

theorem threeInputs_succeeds : Succeeds 1 laterTen threeInputs oneList := by
  refine ⟨⟨by decide, rfl, by decide, rfl⟩, fun item₁ mem₁ h₁ => ?_⟩
  cases h₁
  refine ⟨⟨by decide, rfl, by decide, rfl⟩, fun item₂ mem₂ h₂ => ?_⟩
  cases h₂
  exact ⟨⟨by decide, rfl, by decide, rfl⟩, fun _ _ _ => trivial⟩

theorem list_sortadd_sorts_stably_three :
    SortsStably (fun x y => x / 10 <= y / 10) laterTen oneList 1 threeInputs ∧
      PutsInOrder (fun x y => x / 10 <= y / 10) laterTen oneList 1 [] 25 (blockAt 64) := by
  rcases list_sortadd_sorts_stably laterTen_tellsAfter with ⟨hone, hall⟩
  constructor
  · exact hall oneList 1 threeInputs oneList_created threeInputs_succeeds
  · exact hone oneList 1 [] 25 (blockAt 64) oneList_created.holds List.Pairwise.nil
      ⟨by decide, rfl, by decide, rfl⟩

end LinkedList
end MyLibs
