import MyLibs.LinkedList.Runs

/-!
# Items given back

What a run has allocated and given back, and what is left for `my_list_uninit`.
-/

namespace MyLibs
namespace LinkedList

open Foundation

variable {start mem mem' : Memory} {list p : Ptr} {cells : List (Ptr × Ptr)} {call : Call}
  {calls : List Call} {made : Ptr -> Nat}

def newAt (mem mem' : Memory) (p : Ptr) : Nat :=
  if mem.items p = none ∧ mem'.items p ≠ none then 1 else 0

inductive LedgerRun (list : Ptr) (start : Memory) : List Call -> (Ptr -> Nat) -> Memory -> Prop
  | nil : LedgerRun list start [] (fun _ => 0) start
  | snoc {calls : List Call} {made : Ptr -> Nat} {mem mem' : Memory} {call : Call}
      {answer : Answer} :
      LedgerRun list start calls made mem -> call.Allowed mem (sequenceAfter calls) ->
      call.apply mem list = some (answer, mem') ->
      LedgerRun list start (calls ++ [call]) (fun p => made p + newAt mem mem' p) mem'

def freedSince (start mem : Memory) (p : Ptr) : Nat :=
  mem.log.count p - start.log.count p

/-- The items that are still allocated are those of the list, and `my_list_uninit`
gives every item back that has not been given back before. -/
structure Tidy (start : Memory) (list : Ptr) (made : Ptr -> Nat) (mem : Memory) : Prop where
  live_iff : forall p, freedSince start mem p < made p <-> mem.Reachable list p
  uninit : exists mem', myListUninit mem list = some mem' ∧
    forall p, freedSince start mem' p = made p

theorem LedgerRun.run (h : LedgerRun list start calls made mem) : Run list start calls mem := by
  induction h with
  | nil => exact .nil
  | snoc _ hallowed hcall ih => exact ih.snoc hallowed hcall

/-!
## What a step allocates and gives back
-/

def Memory.present (mem : Memory) (p : Ptr) : Nat :=
  if mem.items p = none then 0 else 1

theorem newAt_self (mem : Memory) (p : Ptr) : newAt mem mem p = 0 :=
  if_neg fun h => h.right h.left

theorem Grown.items_eq_none_iff {data q : Ptr} {block : Block} {cells' : List (Ptr × Ptr)}
    (h : Grown mem mem' list data block cells') (hq : q ≠ block.address) :
    mem'.items q = none <-> mem.items q = none := by
  rw [← payload_eq_none_iff, h.payload_eq, Function.update_of_ne hq, payload_eq_none_iff]

theorem Grown.block_ne_none {data : Ptr} {block : Block} {cells' : List (Ptr × Ptr)}
    (h : Grown mem mem' list data block cells') : mem'.items block.address ≠ none := by
  rw [Ne, ← payload_eq_none_iff, h.payload_eq, Function.update_self]
  exact Option.some_ne_none _

theorem Shrunk.items_eq_none_iff {q : Ptr} {cells' : List (Ptr × Ptr)}
    (h : Shrunk mem mem' list p cells') (hq : q ≠ p) :
    mem'.items q = none <-> mem.items q = none := by
  rw [← payload_eq_none_iff, h.payload_eq, Function.update_of_ne hq, payload_eq_none_iff]

theorem Shrunk.eq_none {cells' : List (Ptr × Ptr)} (h : Shrunk mem mem' list p cells') :
    mem'.items p = none := by
  rw [← payload_eq_none_iff, h.payload_eq, Function.update_self]

/-- Every item allocated is there or has been given back. -/
theorem Call.Outcome.balance (houtcome : call.Outcome mem list cells mem')
    (h : Holds mem list cells) (p : Ptr) :
    mem.log.count p <= mem'.log.count p ∧
      newAt mem mem' p + mem.log.count p + mem.present p = mem'.log.count p + mem'.present p := by
  cases houtcome with
  | unchanged hcells =>
      rw [newAt_self, Nat.zero_add]
      exact ⟨Nat.le_refl _, rfl⟩
  | @grown mem' data block hblock hgrown hperm =>
      rw [hgrown.log_eq]
      refine ⟨Nat.le_refl _, ?_⟩
      rcases eq_or_ne p block.address with hp | hp
      · have hthere : mem'.items p ≠ none := hp ▸ hgrown.block_ne_none
        have hunused : mem.items p = none := hp ▸ hblock.unused
        rw [newAt, if_pos ⟨hunused, hthere⟩, Memory.present, if_pos hunused, Memory.present,
          if_neg hthere, Nat.add_zero, Nat.add_comm]
      · have hsame := hgrown.items_eq_none_iff hp
        have hnew : newAt mem mem' p = 0 := if_neg fun hboth => hboth.right (hsame.mpr hboth.left)
        simp only [hnew, Memory.present, hsame, Nat.zero_add]
  | @shrunk mem' first rest c hclear hsplit hcells hshrunk =>
      rw [hshrunk.log_eq]
      refine ⟨List.count_le_count_cons, ?_⟩
      rcases eq_or_ne p c.1 with hp | hp
      · have hgone : mem'.items p = none := hp ▸ hshrunk.eq_none
        have hc : c ∈ cells := by
          rw [hsplit]
          exact List.mem_append_right _ (List.mem_cons_self ..)
        have hthere : mem.items p ≠ none := hp ▸ h.exists_of_mem hc
        have hnew : newAt mem mem' p = 0 := if_neg fun hboth => hboth.right hgone
        rw [hnew, Memory.present, if_neg hthere, Memory.present, if_pos hgone, hp,
          List.count_cons_self, Nat.zero_add, Nat.add_zero]
      · have hsame := hshrunk.items_eq_none_iff hp
        have hnew : newAt mem mem' p = 0 := if_neg fun hboth => hboth.right (hsame.mpr hboth.left)
        rw [List.count_cons_of_ne hp.symm]
        simp only [hnew, Memory.present, hsame, Nat.zero_add]
  | cleared hclear =>
      have hsame : newAt mem
          { mem with lists := Function.update mem.lists list (some myListInit) } p = 0 :=
        newAt_self mem p
      rw [hsame, Nat.zero_add]
      exact ⟨Nat.le_refl _, rfl⟩

def Memory.Stray (mem : Memory) (cells : List (Ptr × Ptr)) (p : Ptr) : Prop :=
  mem.items p ≠ none ∧ p ∉ addrs cells

/-- Only `my_list_clear` loses items. -/
theorem Call.Outcome.stray_iff (houtcome : call.Outcome mem list cells mem')
    (h : Holds mem list cells) : mem'.Stray (call.onSequence cells) p <->
      mem.Stray cells p ∨ call = .clear ∧ p ∈ addrs cells := by
  cases houtcome with
  | unchanged hcells =>
      rw [hcells]
      refine ⟨Or.inl, fun hstray => hstray.elim id fun hcleared => ?_⟩
      rw [hcleared.left] at hcells
      rw [← hcells] at hcleared
      cases hcleared.right
  | @grown mem' data block hblock hgrown hperm =>
      have hclear : call ≠ .clear := by
        intro hclear
        subst hclear
        have hlength := hperm.length_eq
        cases hlength
      have hmem : p ∈ addrs (call.onSequence cells) <-> p = block.address ∨ p ∈ addrs cells :=
        (hperm.map Prod.fst).mem_iff.trans List.mem_cons
      simp only [Memory.Stray, hmem, hclear, false_and, or_false, not_or]
      rcases eq_or_ne p block.address with hp | hp
      · have hunused : mem.items p = none := hp ▸ hblock.unused
        simp only [hp, hp ▸ hunused, ne_eq, not_true, false_and, and_false]
      · simp only [ne_eq, hgrown.items_eq_none_iff hp, hp, not_false_iff, true_and]
  | @shrunk mem' first rest c hclear hsplit hcells hshrunk =>
      have hmem : p ∈ addrs cells <-> p = c.1 ∨ p ∈ addrs (call.onSequence cells) := by
        rw [hcells, hsplit]
        exact (List.perm_middle.map Prod.fst).mem_iff.trans List.mem_cons
      simp only [Memory.Stray, hmem, hclear, false_and, or_false, not_or]
      rcases eq_or_ne p c.1 with hp | hp
      · have hgone : mem'.items p = none := hp ▸ hshrunk.eq_none
        simp only [hp, hp ▸ hgone, ne_eq, not_true, false_and, and_false]
      · simp only [ne_eq, hshrunk.items_eq_none_iff hp, hp, not_false_iff, true_and]
  | cleared hclear =>
      subst hclear
      have hnone : p ∉ addrs (Call.onSequence cells .clear) := List.not_mem_nil
      simp only [Memory.Stray, hnone, not_false_iff, and_true, true_and]
      constructor
      · intro hthere
        exact (Decidable.em (p ∈ addrs cells)).elim Or.inr fun hp => Or.inl ⟨hthere, hp⟩
      · intro hstray
        rcases hstray with hstray | hp
        · exact hstray.left
        · rcases List.mem_map.mp hp with ⟨c, hc, rfl⟩
          exact h.exists_of_mem hc

/-!
## Runs
-/

def Cleared (calls : List Call) (p : Ptr) : Prop :=
  exists first rest, calls = first ++ .clear :: rest ∧ p ∈ addrs (sequenceAfter first)

theorem cleared_snoc : Cleared (calls ++ [call]) p <->
    Cleared calls p ∨ call = .clear ∧ p ∈ addrs (sequenceAfter calls) := by
  constructor
  · intro h
    rcases h with ⟨first, rest, hsplit, hp⟩
    rcases List.eq_nil_or_concat rest with hrest | ⟨rest, last, hrest⟩
    · subst hrest
      rcases List.append_inj' hsplit rfl with ⟨hfirst, hlast⟩
      cases hlast
      exact Or.inr ⟨rfl, hfirst ▸ hp⟩
    · rw [List.concat_eq_append] at hrest
      subst hrest
      rw [← List.cons_append, ← List.append_assoc] at hsplit
      rcases List.append_inj' hsplit rfl with ⟨hfirst, _⟩
      exact Or.inl ⟨first, rest, hfirst, hp⟩
  · intro h
    rcases h with ⟨first, rest, hsplit, hp⟩ | ⟨hclear, hp⟩
    · refine ⟨first, rest ++ [call], ?_, hp⟩
      rw [hsplit, List.append_assoc, List.cons_append]
    · exact ⟨calls, [], by rw [hclear], hp⟩

theorem Run.stray_iff (hstart : Created start list) (hrun : Run list start calls mem) :
    (mem.Stray (sequenceAfter calls) p <-> start.items p ≠ none ∨ Cleared calls p) ∧
      (Cleared calls p -> start.items p = none) := by
  induction hrun with
  | nil =>
      have hnone : ¬Cleared [] p := by
        intro h
        rcases h with ⟨first, rest, hsplit, _⟩
        cases List.append_eq_nil_iff.mp hsplit.symm with
        | intro _ hrest => cases hrest
      have hout : p ∉ addrs (sequenceAfter []) := List.not_mem_nil
      simp only [Memory.Stray, hnone, hout, not_false_iff, and_true, or_false, false_imp_iff]
  | @snoc calls mem mem' call answer hrun hallowed hcall ih =>
      have hholds := hrun.holds hstart
      rcases hholds.acts hallowed with ⟨mem'', hcall', houtcome⟩
      rw [hcall] at hcall'
      cases hcall'
      rw [sequenceAfter_snoc, houtcome.stray_iff hholds, ih.left, cleared_snoc, or_assoc]
      refine ⟨Iff.rfl, fun hcleared => hcleared.elim ih.right fun hnow => ?_⟩
      by_contra hthere
      exact (ih.left.mpr (Or.inl hthere)).right hnow.right

theorem LedgerRun.balance (hstart : Created start list)
    (hrun : LedgerRun list start calls made mem) (p : Ptr) :
    start.log.count p <= mem.log.count p ∧
      made p + start.log.count p + start.present p = mem.log.count p + mem.present p := by
  induction hrun with
  | nil =>
      rw [Nat.zero_add]
      exact ⟨Nat.le_refl _, rfl⟩
  | @snoc calls made mem mem' call answer hrun hallowed hcall ih =>
      have hholds := hrun.run.holds hstart
      rcases hholds.acts hallowed with ⟨mem'', hcall', houtcome⟩
      rw [hcall] at hcall'
      cases hcall'
      show start.log.count p <= mem'.log.count p ∧
        made p + newAt mem mem' p + start.log.count p + start.present p = _
      rcases houtcome.balance hholds p with ⟨hle, hstep⟩
      rcases ih with ⟨hle₀, hbefore⟩
      constructor
      · exact Nat.le_trans hle₀ hle
      · omega

/-!
## The end of a list
-/

theorem freeItems_spec {path : List Ptr} {first : Ptr}
    (hpath : Segment (nextOf mem) first path NULL) (hnodup : path.Nodup)
    (hthere : forall q, q ∈ path -> q ≠ NULL ∧ mem.items q ≠ none) (hne : path ≠ []) :
    exists mem', freeItems path.length first mem = some mem' ∧
      mem'.log = path.reverse ++ mem.log := by
  induction path generalizing first mem with
  | nil => exact absurd rfl hne
  | cons q path ih =>
      rcases Segment.cons_iff.mp hpath with ⟨hfirst, hrest⟩
      subst hfirst
      rcases Option.ne_none_iff_exists'.mp (hthere first (List.mem_cons_self ..)).right with
        ⟨item, hitem⟩
      have hnext : nextOf mem first = item.next := by
        rw [nextOf, hitem]
        rfl
      rw [List.length_cons, freeItems, hitem]
      rcases List.nodup_cons.mp hnodup with ⟨hout, hnodup⟩
      rw [List.reverse_cons, List.append_assoc]
      cases path with
      | nil =>
          have hlast : item.next = NULL := hnext.symm.trans (Segment.nil_iff.mp hrest)
          exact ⟨_, if_pos hlast, rfl⟩
      | cons r path =>
          rcases Segment.cons_iff.mp hrest with ⟨hr, _⟩
          have hmore : item.next ≠ NULL := by
            rw [← hnext, hr]
            exact (hthere r (List.mem_cons_of_mem _ (List.mem_cons_self ..))).left
          rw [hnext] at hrest
          simp only [Option.bind_eq_bind, Option.bind_some, if_neg hmore]
          generalize hfreed : ({ mem with
            items := Function.update mem.items first none
            log := first :: mem.log } : Memory) = freed
          have hkept : forall q, q ∈ r :: path -> freed.items q = mem.items q := by
            intro q hq
            have hapart : q ≠ first := by
              intro heq
              rw [heq] at hq
              exact hout hq
            rw [← hfreed]
            exact Function.update_of_ne hapart ..
          have hlog : freed.log = first :: mem.log := by rw [← hfreed]
          have hagain : exists mem', freeItems (r :: path).length item.next freed = some mem' ∧
              mem'.log = (r :: path).reverse ++ freed.log := by
            apply ih
            · exact hrest.congr fun q hq => by rw [nextOf, nextOf, hkept q hq]
            · exact hnodup
            · intro q hq
              rw [hkept q hq]
              exact hthere q (List.mem_cons_of_mem _ hq)
            · exact List.cons_ne_nil r path
          rw [hlog] at hagain
          exact hagain

theorem Holds.uninit (h : Holds mem list cells) :
    exists mem', myListUninit mem list = some mem' ∧
      mem'.log = (addrs cells).reverse ++ mem.log := by
  have hwell := h.wellFormed
  rw [myListUninit, if_neg h.list_ne, h.header]
  simp only [Option.bind_eq_bind, Option.bind_some, freeList]
  rcases eq_or_ne cells [] with hempty | hne
  · subst hempty
    exact ⟨_, rfl, rfl⟩
  · rw [if_pos (List.length_pos_of_ne_nil hne)]
    have hlength : (addrs cells).length = cells.length := List.length_map ..
    rcases freeItems_spec hwell.forwards h.nodup (fun q hq => by
        rcases List.mem_map.mp hq with ⟨c, hc, rfl⟩
        exact ⟨h.addr_ne hc, h.exists_of_mem hc⟩)
      (mt addrs_eq_nil_iff.mp hne) with ⟨mem', hfree, hlog⟩
    rw [hlength] at hfree
    rw [hfree]
    exact ⟨_, rfl, hlog⟩

/-!
## What is left
-/

theorem LedgerRun.unfreed_iff (hstart : Created start list)
    (hrun : LedgerRun list start calls made mem) :
    freedSince start mem p < made p <-> mem.items p ≠ none ∧ start.items p = none := by
  rcases hrun.balance hstart p with ⟨hle, hbalance⟩
  have hstray := (hrun.run.stray_iff (p := p) hstart).left
  rw [freedSince]
  by_cases hold : start.items p = none
  · by_cases hthere : mem.items p = none
    · rw [Memory.present, if_pos hold, Memory.present, if_pos hthere] at hbalance
      simp only [hthere, ne_eq, not_true, false_and, iff_false]
      omega
    · rw [Memory.present, if_pos hold, Memory.present, if_neg hthere] at hbalance
      simp only [hthere, hold, ne_eq, not_false_iff, true_and, iff_true]
      omega
  · have hthere : mem.items p ≠ none := (hstray.mpr (Or.inl hold)).left
    rw [Memory.present, if_neg hold, Memory.present, if_neg hthere] at hbalance
    simp only [hold, and_false, iff_false]
    omega

theorem LedgerRun.tidy (hstart : Created start list)
    (hrun : LedgerRun list start calls made mem) (hkept : forall p, ¬Cleared calls p) :
    Tidy start list made mem := by
  have hholds := hrun.run.holds hstart
  have hlive : forall p, freedSince start mem p < made p <-> p ∈ addrs (sequenceAfter calls) := by
    intro p
    have hstray := (hrun.run.stray_iff (p := p) hstart).left
    simp only [hkept p, or_false, Memory.Stray] at hstray
    rw [hrun.unfreed_iff hstart]
    constructor
    · intro hlive
      by_contra hout
      exact hstray.mp ⟨hlive.left, hout⟩ hlive.right
    · intro hp
      constructor
      · rcases List.mem_map.mp hp with ⟨c, hc, rfl⟩
        exact hholds.exists_of_mem hc
      · by_contra hold
        exact (hstray.mpr hold).right hp
  constructor
  · intro p
    rw [hlive p, hholds.reachable_iff]
  · rcases hholds.uninit with ⟨mem', huninit, hlog⟩
    refine ⟨mem', huninit, fun p => ?_⟩
    rcases hrun.balance hstart p with ⟨hle, hbalance⟩
    have hunfreed := hlive p
    have honce := List.nodup_iff_count_le_one.mp hholds.nodup p
    rw [freedSince] at hunfreed ⊢
    rw [hlog, List.count_append, List.count_reverse]
    by_cases hp : p ∈ addrs (sequenceAfter calls)
    · have hcount := List.count_pos_iff.mpr hp
      have hmissing := hunfreed.mpr hp
      have hstill : mem.present p <= 1 + start.present p := by
        rw [Memory.present]
        split <;> omega
      omega
    · have hcount := List.count_eq_zero.mpr hp
      have hdone := mt hunfreed.mp hp
      have hgone : start.present p <= mem.present p := by
        rw [Memory.present]
        split
        next => exact Nat.zero_le _
        next hold =>
          have hthere := ((hrun.run.stray_iff hstart).left.mpr (Or.inl hold)).left
          rw [Memory.present, if_neg hthere]
      omega

theorem LedgerRun.not_tidy (hstart : Created start list)
    (hrun : LedgerRun list start calls made mem) (hcleared : Cleared calls p) :
    ¬Tidy start list made mem := by
  intro htidy
  rcases hrun.run.stray_iff hstart with ⟨hstray, hold⟩
  have hlost := hstray.mpr (Or.inr hcleared)
  have hreach := (htidy.live_iff p).mp ((hrun.unfreed_iff hstart).mpr ⟨hlost.left, hold hcleared⟩)
  exact hlost.right ((hrun.run.holds hstart).reachable_iff.mp hreach)

/-- No item is lost, and none is given back twice, exactly when `my_list_clear` is
called on empty lists only. -/
theorem items_given_back_iff (hstart : Created start list)
    (hrun : LedgerRun list start calls made mem) : Tidy start list made mem <->
      forall first rest, calls = first ++ .clear :: rest -> sequenceAfter first = [] := by
  constructor
  · intro htidy first rest hsplit
    by_contra hne
    rcases List.exists_mem_of_ne_nil _ hne with ⟨c, hc⟩
    exact hrun.not_tidy hstart ⟨first, rest, hsplit, List.mem_map_of_mem hc⟩ htidy
  · intro hempty
    refine hrun.tidy hstart fun p hcleared => ?_
    rcases hcleared with ⟨first, rest, hsplit, hp⟩
    rw [hempty first rest hsplit] at hp
    cases hp

/-- Two items are added and deleted, a list that is empty again is cleared, and the block
of one of them becomes another item. -/
def reusedBlock : List Call :=
  [.add 5 (blockAt 64), .prepend 6 (blockAt 128), .iterDelete 64, .iterDelete 128, .clear,
    .add 7 (blockAt 64)]

theorem reusedBlock_run : exists made mem,
    LedgerRun 1 oneList reusedBlock made mem ∧ made 64 = 2 := by
  show exists made mem, LedgerRun 1 oneList (((((([] ++ [.add 5 (blockAt 64)]) ++
    [.prepend 6 (blockAt 128)]) ++ [.iterDelete 64]) ++ [.iterDelete 128]) ++ [.clear]) ++
      [.add 7 (blockAt 64)]) made mem ∧ made 64 = 2
  refine ⟨_, _, LedgerRun.nil |>.snoc ?_ rfl |>.snoc ?_ rfl |>.snoc ?_ rfl |>.snoc ?_ rfl
    |>.snoc ?_ rfl |>.snoc ?_ rfl, rfl⟩
  · exact Or.inr ⟨by decide, rfl, by decide, rfl⟩
  · exact Or.inr ⟨by decide, rfl, by decide, rfl⟩
  · exact show 64 ∈ addrs [(128, 6), (64, 5)] by decide
  · exact show 128 ∈ addrs [(128, 6)] by decide
  · trivial
  · exact Or.inr ⟨by decide, rfl, by decide, rfl⟩

theorem items_given_back_iff_reusedBlock : exists made mem,
    LedgerRun 1 oneList reusedBlock made mem ∧ made 64 = 2 ∧ Tidy oneList 1 made mem := by
  rcases reusedBlock_run with ⟨made, mem, hrun, htwice⟩
  refine ⟨made, mem, hrun, htwice, (items_given_back_iff oneList_created hrun).mpr ?_⟩
  intro first rest hsplit
  have hclear : reusedBlock[first.length]? = some .clear := by
    rw [hsplit, List.getElem?_append_right (Nat.le_refl _), Nat.sub_self]
    rfl
  have hfirst : first = reusedBlock.take first.length := by
    rw [hsplit, List.take_left]
  rw [hfirst]
  generalize first.length = n at hclear
  match n with
  | 4 => rfl
  | 0 | 1 | 2 | 3 | 5 => cases hclear
  | n + 6 => cases hclear

/-- The item of a list that is cleared stays allocated, and `my_list_uninit` does
not find it. -/
theorem items_lost : exists made mem,
    LedgerRun 1 oneList ([] ++ [.add 5 (blockAt 64)] ++ [.clear]) made mem ∧
      ¬Tidy oneList 1 made mem := by
  have hadd : Call.Allowed oneList (sequenceAfter []) (.add 5 (blockAt 64)) :=
    Or.inr ⟨by decide, rfl, by decide, rfl⟩
  rcases (oneList_created.holds).acts hadd with ⟨mem, hcall, _⟩
  have hrun := LedgerRun.nil.snoc hadd hcall
  have hholds := hrun.run.holds oneList_created
  have hallowed : Call.Allowed mem (sequenceAfter ([] ++ [.add 5 (blockAt 64)])) .clear := trivial
  rcases hholds.acts hallowed with ⟨mem', hcall, _⟩
  have hcleared : Cleared ([] ++ [.add 5 (blockAt 64)] ++ [.clear]) 64 :=
    ⟨[] ++ [.add 5 (blockAt 64)], [], rfl, by decide⟩
  have hrun' := hrun.snoc hallowed hcall
  exact ⟨_, mem', hrun', hrun'.not_tidy oneList_created hcleared⟩

end LinkedList
end MyLibs
