import MyLibs.RBTree.Steps

/-!
# Callbacks

The free function is called for an element when it leaves the tree, and only
then. An element is known by its address and its key: an address comes back
after it was freed, but not within the call that frees it with the same key.
-/

namespace MyLibs
namespace RBTree

open Foundation

variable {κ : Type} {t t' : ColourTree (Node κ)} {tree tree' : RbTree κ} {key : κ}
  {keySize : Nat} {malloc : Malloc κ} {p : Ptr} {isDelete : Bool} {settings : Settings κ}

def places (t : ColourTree (Node κ)) : List (Ptr × κ) :=
  t.toList.map Node.place

/-!
## Logs
-/

def freeKeys (events : List (Event κ)) : List κ :=
  events.filterMap fun
    | .freeFree key => some key
    | _ => none

def released (events : List (Event κ)) : List Ptr :=
  events.filterMap fun
    | .myFree element => some element
    | _ => none

/-- The element was released after the call of the free function for its key. -/
def ReleasedAfter (place : Ptr × κ) (events : List (Event κ)) : Prop :=
  exists later between earlier,
    events = later ++ .myFree place.1 :: (between ++ .freeFree place.2 :: earlier)

theorem freeKeys_append (first rest : List (Event κ)) :
    freeKeys (first ++ rest) = freeKeys first ++ freeKeys rest :=
  List.filterMap_append

theorem released_append (first rest : List (Event κ)) :
    released (first ++ rest) = released first ++ released rest :=
  List.filterMap_append

theorem ReleasedAfter.append {place : Ptr × κ} {events : List (Event κ)}
    (h : ReleasedAfter place events) (newer older : List (Event κ)) :
    ReleasedAfter place (newer ++ (events ++ older)) := by
  rcases h with ⟨later, between, earlier, rfl⟩
  refine ⟨newer ++ later, between, earlier ++ older, ?_⟩
  simp only [List.append_assoc, List.cons_append]

/-!
## Taking a tree down
-/

theorem places_node (c : Colour) (l : ColourTree (Node κ)) (v : Node κ)
    (r : ColourTree (Node κ)) : places (.node c l v r) = places l ++ v.place :: places r := by
  rw [places, ColourTree.toList, List.map_append, List.map_cons]
  rfl

theorem freeKeys_noted_myFree (set : Bool) (p : Ptr) :
    freeKeys (noted set (.myFree p) : List (Event κ)) = [] := by
  cases set <;> rfl

theorem freeKeys_teardown (isDelete : Bool) (t : ColourTree (Node κ)) :
    freeKeys (teardown true isDelete t) = ((places t).map Prod.snd).reverse := by
  induction t with
  | nil => rfl
  | node c l v r ihl ihr =>
      have hv : freeKeys (noted true (.freeFree v.key)) = [v.key] := rfl
      have hplace : v.place.2 = v.key := rfl
      rw [teardown, freeKeys_append, freeKeys_append, freeKeys_append, freeKeys_noted_myFree,
        hv, ihl, ihr, places_node, List.map_append, List.map_cons, List.reverse_append,
        List.reverse_cons, List.append_assoc, hplace, List.nil_append]

theorem released_teardown_false (free : Bool) (t : ColourTree (Node κ)) :
    released (teardown free false t) = [] := by
  induction t with
  | nil => rfl
  | node c l v r ihl ihr =>
      have hv : released (noted free (.freeFree v.key)) = [] := by
        cases free <;> rfl
      rw [teardown, released_append, released_append, released_append, ihl, ihr, hv]
      rfl

theorem released_teardown_true (free : Bool) (t : ColourTree (Node κ)) :
    (released (teardown free true t)).Perm ((places t).map Prod.fst) := by
  induction t with
  | nil => exact List.Perm.refl []
  | node c l v r ihl ihr =>
      have hv : released (noted free (.freeFree v.key)) = [] := by
        cases free <;> rfl
      have hcons : released (noted true (.myFree v.addr) : List (Event κ)) = [v.place.1] := rfl
      rw [teardown, released_append, released_append, released_append, hv, hcons, places_node,
        List.map_append, List.map_cons, List.singleton_append, List.nil_append]
      have hsides : (released (teardown free true r) ++ released (teardown free true l)).Perm
          ((places l).map Prod.fst ++ (places r).map Prod.fst) :=
        (ihr.append ihl).trans List.perm_append_comm
      exact (hsides.cons _).trans List.perm_middle.symm

theorem releasedAfter_teardown {place : Ptr × κ} (hplace : place ∈ places t) :
    ReleasedAfter place (teardown true true t) := by
  induction t with
  | nil => cases hplace
  | node c l v r ihl ihr =>
      rw [places_node] at hplace
      rw [teardown]
      rcases List.mem_append.mp hplace with hl | hplace
      · have hdone := (ihl hl).append (noted true (.myFree v.addr) ++
          (teardown true true r ++ noted true (.freeFree v.key))) []
        simp only [List.append_assoc, List.append_nil] at hdone
        exact hdone
      · rcases List.mem_cons.mp hplace with rfl | hr
        · exact ⟨[], teardown true true r, teardown true true l, rfl⟩
        · exact (ihr hr).append _ _

/-!
## One call
-/

/-- Some elements leave, new ones come, and the free function is called for those
that leave. -/
structure Turnover (isDelete : Bool) (t t' : ColourTree (Node κ)) (left new : List (Ptr × κ))
    (events : List (Event κ)) : Prop where
  balance : (places t ++ new).Perm (places t' ++ left)
  gone : forall place, place ∈ left -> place ∈ places t ∧ place ∉ places t'
  /-- One call for each of them, and no other. -/
  keys : (freeKeys events).Perm (left.map Prod.snd)
  once : (left.map Prod.snd).Nodup
  /-- Each of them is released, if elements are freed one by one. -/
  blocks : (released events).Perm (if isDelete then left.map Prod.fst else [])
  order : isDelete = true -> forall place, place ∈ left -> ReleasedAfter place events

namespace Turnover

theorem none {new : List (Ptr × κ)} (h : (places t ++ new).Perm (places t')) :
    Turnover isDelete t t' [] new [] where
  balance := by
    rw [List.append_nil]
    exact h
  gone := fun place hplace => by cases hplace
  keys := List.Perm.refl []
  once := List.nodup_nil
  blocks := by
    cases isDelete <;> exact List.Perm.refl []
  order := fun _ place hplace => by cases hplace

theorem all {new : List (Ptr × κ)} (limited : Bool) (hkeys : ((places t).map Prod.snd).Nodup)
    (hnew : new.Perm (places t')) (hgone : forall place, place ∈ places t -> place ∉ places t') :
    Turnover isDelete t t' (places t) new (resetLog true isDelete limited t) where
  balance := by
    exact List.perm_append_comm.trans (hnew.append_right _)
  gone := fun place hplace => ⟨hplace, hgone place hplace⟩
  keys := by
    have hinit : freeKeys (noted (true && !isDelete && limited) .freeInit : List (Event κ)) =
        [] := by
      cases isDelete <;> cases limited <;> rfl
    have huninit : freeKeys (noted (true && !isDelete && limited) .freeUninit : List (Event κ)) =
        [] := by
      cases isDelete <;> cases limited <;> rfl
    rw [resetLog, freeKeys_append, freeKeys_append, hinit, huninit, freeKeys_teardown,
      List.append_nil, List.nil_append]
    exact List.reverse_perm _
  once := hkeys
  blocks := by
    cases isDelete with
    | true =>
        rw [resetLog_deleting]
        exact released_teardown_true true t
    | false =>
        have hevents : released (resetLog true false limited t) = [] := by
          rw [resetLog, released_append, released_append, released_teardown_false]
          cases limited <;> rfl
        rw [hevents]
        exact List.Perm.refl []
  order := by
    intro hdelete place hplace
    rw [hdelete, resetLog_deleting]
    exact releasedAfter_teardown hplace

theorem one {first rest : List (Node κ)} {u : Node κ} (ht : t.toList = first ++ u :: rest)
    (ht' : t'.toList = first ++ rest) (hnodup : (addrs t).Nodup) :
    Turnover true t t' [u.place] [] (.myFree u.addr :: noted true (.freeFree u.key)) where
  balance := by
    have hright : (rest.map Node.place ++ [u.place]).Perm (u.place :: rest.map Node.place) :=
      List.perm_append_comm
    rw [places, places, ht, ht', List.map_append, List.map_append, List.map_cons,
      List.append_nil, List.append_assoc]
    exact hright.symm.append_left _
  gone := by
    intro place hplace
    rw [List.mem_singleton.mp hplace]
    constructor
    · rw [places, ht, List.map_append]
      exact List.mem_append_right _ (List.mem_cons_self ..)
    · intro hmem
      rw [places, ht'] at hmem
      rcases List.mem_map.mp hmem with ⟨w, hw, hsame⟩
      rw [addrs, ht, List.map_append, List.map_cons] at hnodup
      have hcons := List.nodup_cons.mp (List.perm_middle.nodup_iff.mp hnodup)
      rw [← List.map_append] at hcons
      have haddr : w.addr = u.addr := congrArg Prod.fst hsame
      rw [← haddr] at hcons
      exact hcons.left (List.mem_map_of_mem hw)
  keys := List.Perm.refl _
  once := List.nodup_singleton _
  blocks := List.Perm.refl _
  order := by
    intro _ place hplace
    rw [List.mem_singleton.mp hplace]
    exact ⟨[], [], [], rfl⟩

end Turnover

/-- The element that a call creates, if it does: an insertion of a key that is not
there, unless it returns `NULL`. -/
def Call.Creates (tree : RbTree κ) (answer : Answer κ) (new : List (Ptr × κ)) :
    Call κ -> Prop
  | .insert key _ _ => forall p, answer = .element p ->
      (tree.Absent key ∧ p ≠ NULL -> new = [(p, key)]) ∧
        (¬(tree.Absent key ∧ p ≠ NULL) -> new = [])
  | _ => new = []

theorem Valid.keys_nodup (h : Valid tree t) (hcompare : TotalPreorder tree.compare) :
    ((places t).map Prod.snd).Nodup := by
  rw [places, List.map_map, List.Nodup, List.pairwise_map]
  refine h.ascending.imp ?_
  intro u w hlt hsame
  have hkey : u.key = w.key := hsame
  rw [hkey, hcompare.self] at hlt
  exact Int.lt_irrefl 0 hlt

theorem InsertStep.turnover {new : List (Ptr × κ)}
    (hstep : InsertStep malloc key keySize tree t p tree' t') (h : Valid tree t)
    (hcompare : TotalPreorder tree.compare) (hfree : tree.free = true)
    (hnew : (Call.insert key keySize malloc).Creates tree (.element p) new) :
    exists left events, tree'.free = true ∧ tree'.log = events ++ tree.log ∧
      Turnover tree.isDelete t t' left new events := by
  have hcreates := hnew p rfl
  cases hstep with
  | @met _ _ _ u s _ hu hequal hplaces =>
      have hthere : ¬(tree.Absent key ∧ p ≠ NULL) := fun hnone =>
        h.absent_iff.mp hnone.left u hu hequal
      rw [hcreates.right hthere]
      refine ⟨[], [], hfree, rfl, Turnover.none ?_⟩
      rw [List.append_nil, places, places, hplaces]
  | full habsent hroom hfull =>
      have hfailed : ¬(tree.Absent key ∧ NULL ≠ NULL) := fun hnone => hnone.right rfl
      rw [hcreates.right hfailed]
      refine ⟨[], [], hfree, rfl, Turnover.none ?_⟩
      rw [List.append_nil]
  | @added _ _ _ s _ first rest habsent hroom hp hne ht ht' =>
      rw [hcreates.left ⟨h.absent_iff.mpr habsent, hne⟩]
      refine ⟨[], [], hfree, rfl, Turnover.none ?_⟩
      rw [places, places, ht, ht', List.map_append, List.map_append, List.map_cons]
      refine List.perm_append_comm.trans ?_
      rw [List.singleton_append]
      exact List.perm_middle.symm
  | restarted habsent hexceeds hfewer hagain =>
      rcases hagain.of_nil rfl with ⟨⟨hlog, hfree'⟩, houtcome⟩
      have hkeys := h.keys_nodup hcompare
      refine ⟨places t, _, hfree'.trans hfree, hlog, ?_⟩
      rw [hfree]
      rcases houtcome with ⟨_, rfl, rfl⟩ | ⟨hne, ht'⟩
      · have hfailed : ¬(tree.Absent key ∧ NULL ≠ NULL) := fun hnone => hnone.right rfl
        rw [hcreates.right hfailed]
        exact Turnover.all _ hkeys (List.Perm.refl []) fun place _ hmem => by cases hmem
      · have hplaces : places t' = [(p, key)] := by
          rw [places, ht']
          rfl
        rw [hcreates.left ⟨h.absent_iff.mpr habsent, hne⟩]
        refine Turnover.all _ hkeys ?_ ?_
        · rw [hplaces]
        · intro place hplace hmem
          rw [hplaces, List.mem_singleton] at hmem
          rcases List.mem_map.mp hplace with ⟨u, hu, hsame⟩
          have hkey : u.key = key := congrArg Prod.snd (hsame.trans hmem)
          have hdiffers := habsent u hu
          rw [hkey] at hdiffers
          exact hdiffers (hcompare.self key)

theorem DeleteStep.turnover {r : Nat} (hstep : DeleteStep key keySize tree t r tree' t')
    (h : Valid tree t) (hfree : tree.free = true) :
    exists left events, tree'.free = true ∧ tree'.log = events ++ tree.log ∧
      Turnover tree.isDelete t t' left [] events := by
  cases hstep with
  | kept hkept =>
      refine ⟨[], [], hfree, rfl, Turnover.none ?_⟩
      rw [List.append_nil]
  | @removed _ s first rest u hdelete hequal ht ht' =>
      refine ⟨[u.place], _, hfree, (List.cons_append ..).symm, ?_⟩
      rw [hfree, hdelete]
      exact Turnover.one ht ht' h.rep.nodup

theorem resetLog_turnover (h : Valid tree t) (hcompare : TotalPreorder tree.compare)
    (hfree : tree.free = true) (limited : Bool) :
    Turnover tree.isDelete t .nil (places t) [] (resetLog tree.free tree.isDelete limited t) := by
  rw [hfree]
  exact Turnover.all _ (h.keys_nodup hcompare) (List.Perm.refl []) fun place _ hmem => by cases hmem

theorem rbtreeReset_turnover (h : Valid tree t) (hcompare : TotalPreorder tree.compare)
    (hfree : tree.free = true) (hreset : rbtreeReset tree = .ok tree') :
    exists events, Valid tree' .nil ∧ SameSettings tree tree' ∧ tree'.free = true ∧
      tree'.log = events ++ tree.log ∧
      Turnover tree.isDelete t .nil (places t) [] events := by
  rcases rbtreeReset_spec h with
    ⟨⟨fault, herror⟩, _⟩ | ⟨tree₁, hreset₁, hvalid', hsettings, _⟩
  · rw [hreset] at herror
    cases herror
  rw [hreset] at hreset₁
  cases hreset₁
  rcases rbtreeReset_eq h.rep hreset with ⟨s, rfl⟩
  exact ⟨_, hvalid', hsettings, hfree, rfl, resetLog_turnover h hcompare hfree _⟩

theorem Valid.uninit_returns (h : Valid tree t) (hsize : t.size < 2 ^ 32) :
    exists tree', rbtreeUninit tree = .ok tree' := by
  have hheight := h.redBlack.height_le hsize
  have hlow : 62 < turnLimit := by decide
  rcases rbtreeReset_spec h with ⟨_, hhigh⟩ | ⟨tree', huninit, _⟩
  · omega
  · exact ⟨tree', huninit⟩

theorem Call.turnover {call : Call κ} {answer : Answer κ} {new : List (Ptr × κ)}
    (h : Valid tree t) (hcompare : TotalPreorder tree.compare) (hfree : tree.free = true)
    (hallowed : call.Allowed tree) (hcall : call.apply tree = .ok (answer, tree'))
    (hnew : call.Creates tree answer new) :
    exists t' left events, Valid tree' t' ∧ SameSettings tree tree' ∧ tree'.free = true ∧
      tree'.log = events ++ tree.log ∧ Turnover tree.isDelete t t' left new events := by
  rcases Call.step h hcompare hallowed hcall with ⟨t', hvalid', hsettings, hstep⟩
  cases hstep with
  | inserted hstep =>
      rcases hstep.turnover h hcompare hfree hnew with ⟨left, events, hfree', hlog, hturnover⟩
      exact ⟨t', left, events, hvalid', hsettings, hfree', hlog, hturnover⟩
  | deleted hstep =>
      cases hnew
      rcases hstep.turnover h hfree with ⟨left, events, hfree', hlog, hturnover⟩
      exact ⟨t', left, events, hvalid', hsettings, hfree', hlog, hturnover⟩
  | reset =>
      cases hnew
      exact ⟨.nil, places t, _, hvalid', hsettings, hfree, rfl,
        resetLog_turnover h hcompare hfree _⟩
  | searched =>
      cases hnew
      refine ⟨t, [], [], hvalid', hsettings, hfree, rfl, Turnover.none ?_⟩
      rw [List.append_nil]

/-!
## Whole runs
-/

inductive Lifetime (start : RbTree κ) : List (Ptr × κ) -> RbTree κ -> Prop
  | nil : Lifetime start [] start
  | call {made new : List (Ptr × κ)} {tree tree' : RbTree κ} {call : Call κ} {answer : Answer κ} :
      Lifetime start made tree -> call.Allowed tree -> call.apply tree = .ok (answer, tree') ->
      call.Creates tree answer new -> Lifetime start (made ++ new) tree'

/-- Every element made is in the tree or gone, and those that are gone have got
their calls. -/
structure Ledger (made : List (Ptr × κ)) (tree : RbTree κ) (t : ColourTree (Node κ))
    (gone : List (Ptr × κ)) : Prop where
  balance : made.Perm (places t ++ gone)
  keys : (freeKeys tree.log).Perm (gone.map Prod.snd)
  blocks : (released tree.log).Perm (if tree.isDelete then gone.map Prod.fst else [])

theorem Ledger.turnover {made new left gone : List (Ptr × κ)} {events : List (Event κ)}
    (h : Ledger made tree t gone) (hsettings : SameSettings tree tree')
    (hlog : tree'.log = events ++ tree.log)
    (hturnover : Turnover tree.isDelete t t' left new events) :
    Ledger (made ++ new) tree' t' (left ++ gone) where
  balance := by
    have hswap : (gone ++ new).Perm (new ++ gone) := List.perm_append_comm
    have hsides : (places t ++ gone ++ new).Perm (places t ++ new ++ gone) := by
      rw [List.append_assoc, List.append_assoc]
      exact hswap.append_left _
    have hafter := hturnover.balance.append_right gone
    rw [List.append_assoc (places t')] at hafter
    exact (h.balance.append_right new).trans (hsides.trans hafter)
  keys := by
    rw [hlog, freeKeys_append, List.map_append]
    exact hturnover.keys.append h.keys
  blocks := by
    rw [hlog, hsettings.isDelete_eq, released_append]
    have hboth := hturnover.blocks.append h.blocks
    cases hdelete : tree.isDelete with
    | true =>
        rw [hdelete] at hboth
        rw [if_pos rfl, List.map_append]
        exact hboth
    | false =>
        rw [hdelete] at hboth
        exact hboth

/-- Of an empty tree every element is gone. -/
theorem Ledger.ended {made gone : List (Ptr × κ)} (h : Ledger made tree .nil gone) :
    (freeKeys tree.log).Perm (made.map Prod.snd) ∧
      (released tree.log).Perm (if tree.isDelete then made.map Prod.fst else []) := by
  have hgone : made.Perm gone := h.balance
  refine ⟨h.keys.trans (hgone.symm.map _), h.blocks.trans ?_⟩
  cases tree.isDelete with
  | true => exact hgone.symm.map _
  | false => exact List.Perm.refl []

theorem Lifetime.ledger {made : List (Ptr × κ)} (h : settings.Proper)
    (hfree : settings.free = true) (hlife : Lifetime settings.start made tree) :
    SameSettings settings.start tree ∧ tree.free = true ∧
      exists t gone, Valid tree t ∧ Ledger made tree t gone := by
  induction hlife with
  | nil =>
      refine ⟨SameSettings.refl _, hfree, .nil, [], h.valid_start, List.Perm.refl [],
        List.Perm.refl [], ?_⟩
      cases settings.start.isDelete <;> exact List.Perm.refl []
  | call _ hallowed hcall hnew ih =>
      rcases ih with ⟨hsettings, hset, t, gone, hvalid, hledger⟩
      have hcompare : TotalPreorder settings.start.compare := h.compare
      rw [← hsettings.compare_eq] at hcompare
      rcases Call.turnover hvalid hcompare hset hallowed hcall hnew with
        ⟨t', left, events, hvalid', hsettings', hset', hlog, hturnover⟩
      exact ⟨hsettings.trans hsettings', hset', t', left ++ gone, hvalid',
        hledger.turnover hsettings' hlog hturnover⟩

/-- Each element gets its call in the operation by which it leaves the tree, and
when the tree ends every element ever made has got one call, and there was no
other. Every call returns as long as there are less than 2^32 elements. -/
theorem free_called_once {made : List (Ptr × κ)} (h : settings.Proper)
    (hfree : settings.free = true) (hlife : Lifetime settings.start made tree) :
    exists t : ColourTree (Node κ), Rep tree.nodes t ∧
      (t.size < 2 ^ 32 ->
        (forall call, Call.Allowed tree call ->
          exists answer tree', call.apply tree = .ok (answer, tree')) ∧
        exists tree', rbtreeUninit tree = .ok tree') ∧
      (forall call answer tree' new, Call.Allowed tree call ->
        call.apply tree = .ok (answer, tree') -> call.Creates tree answer new ->
        exists t' left events, Rep tree'.nodes t' ∧ tree'.log = events ++ tree.log ∧
          Turnover settings.isDelete t t' left new events) ∧
      forall tree', rbtreeUninit tree = .ok tree' ->
        Rep tree'.nodes .nil ∧
        (exists events, tree'.log = events ++ tree.log ∧
          Turnover settings.isDelete t .nil (places t) [] events) ∧
        (freeKeys tree'.log).Perm (made.map Prod.snd) ∧
        (released tree'.log).Perm (if settings.isDelete then made.map Prod.fst else []) := by
  rcases hlife.ledger h hfree with ⟨hsettings, hset, t, gone, hvalid, hledger⟩
  have hcompare : TotalPreorder settings.start.compare := h.compare
  rw [← hsettings.compare_eq] at hcompare
  have hdelete : tree.isDelete = settings.isDelete := hsettings.isDelete_eq
  refine ⟨t, hvalid.rep, ?_, ?_, ?_⟩
  · intro hsize
    exact ⟨fun call hallowed => hvalid.call_returns hcompare hsize hallowed,
      hvalid.uninit_returns hsize⟩
  · intro call answer tree' new hallowed hcall hnew
    rcases Call.turnover hvalid hcompare hset hallowed hcall hnew with
      ⟨t', left, events, hvalid', _, _, hlog, hturnover⟩
    rw [hdelete] at hturnover
    exact ⟨t', left, events, hvalid'.rep, hlog, hturnover⟩
  · intro tree' huninit
    rcases rbtreeReset_turnover hvalid hcompare hset huninit with
      ⟨events, hvalid', hsettings', _, hlog, hturnover⟩
    have hend := (hledger.turnover hsettings' hlog hturnover).ended
    rw [List.append_nil, hsettings'.isDelete_eq, hdelete] at hend
    rw [hdelete] at hturnover
    exact ⟨hvalid'.rep, ⟨events, hlog, hturnover⟩, hend⟩

/-!
## A run
-/

def callbackSettings : Settings Int :=
  { integerSettings with free := true, memoryLimit := 120 }

theorem callbackSettings_proper : callbackSettings.Proper :=
  ⟨integerSettings_proper.nullAddress_ne, integerSettings_proper.compare,
    integerSettings_proper.pool⟩

theorem Lifetime.absent {made : List (Ptr × κ)} (h : settings.Proper)
    (hfree : settings.free = true) (hlife : Lifetime settings.start made tree)
    (hnew : forall place, place ∈ made -> settings.compare place.2 key ≠ 0) :
    tree.Absent key := by
  rcases hlife.ledger h hfree with ⟨hsettings, _, t, gone, hvalid, hledger⟩
  have hcompare : tree.compare = settings.compare := hsettings.compare_eq
  refine hvalid.absent_iff.mpr fun u hu => ?_
  rw [hcompare]
  refine hnew u.place ?_
  exact hledger.balance.mem_iff.mpr (List.mem_append_left _ (List.mem_map_of_mem hu))

theorem Lifetime.insertNew {made : List (Ptr × Int)} {tree tree' : RbTree Int} (key : Int)
    (p : Ptr) (hlife : Lifetime callbackSettings.start made tree)
    (hnew : forall place, place ∈ made -> place.2 - key ≠ 0) (hp : p ≠ NULL)
    (hcall : (Call.insert key 0 (mallocAt p)).apply tree = .ok (.element p, tree')) :
    Lifetime callbackSettings.start (made ++ [(p, key)]) tree' := by
  have hallowed : (Call.insert key 0 (mallocAt p)).Allowed tree := freshMalloc_mallocAt p
  have habsent := hlife.absent callbackSettings_proper rfl hnew
  refine hlife.call hallowed hcall fun q hq => ?_
  cases hq
  exact ⟨fun _ => rfl, fun hnone => absurd ⟨habsent, hp⟩ hnone⟩

theorem Lifetime.other {made : List (Ptr × κ)} {start : RbTree κ} (call : Call κ)
    {answer : Answer κ} (hlife : Lifetime start made tree) (hallowed : call.Allowed tree)
    (hcreates : call.Creates tree answer []) (hcall : call.apply tree = .ok (answer, tree')) :
    Lifetime start made tree' := by
  have hafter := hlife.call hallowed hcall hcreates
  rw [List.append_nil] at hafter
  exact hafter

/-- 5 leaves by `rbtree_delete`, 3, 8 and 9 when 2 does not find room, 2 by
`rbtree_reset`. 7 and 4 are left. -/
def callbackTree : RbTree Int :=
  treeAfter callbackSettings.start [.insert 5 0 (mallocAt 100), .insert 3 0 (mallocAt 101),
    .delete 5 0, .insert 8 0 (mallocAt 102), .insert 9 0 (mallocAt 103),
    .insert 2 0 (mallocAt 104), .reset, .insert 7 0 (mallocAt 105), .insert 4 0 (mallocAt 106)]

theorem callbackTree_lifetime : Lifetime callbackSettings.start
    [(100, 5), (101, 3), (102, 8), (103, 9), (104, 2), (105, 7), (106, 4)] callbackTree := by
  have hstart : Lifetime callbackSettings.start [] callbackSettings.start := Lifetime.nil
  have hdeleted := ((hstart.insertNew 5 100 (by decide) (by decide) rfl).insertNew 3 101
    (by decide) (by decide) rfl).other (.delete 5 0) trivial rfl rfl
  have hlimited := ((hdeleted.insertNew 8 102 (by decide) (by decide) rfl).insertNew 9 103
    (by decide) (by decide) rfl).insertNew 2 104 (by decide) (by decide) rfl
  have hreset := hlimited.other .reset trivial rfl rfl
  exact (hreset.insertNew 7 105 (by decide) (by decide) rfl).insertNew 4 106 (by decide)
    (by decide) rfl

theorem free_called_once_callbackTree : freeKeys callbackTree.log = [2, 9, 8, 3, 5] ∧
    exists tree', rbtreeUninit callbackTree = .ok tree' ∧
      (freeKeys tree'.log).Perm [5, 3, 8, 9, 2, 7, 4] ∧
      (released tree'.log).Perm [100, 101, 102, 103, 104, 105, 106] := by
  rcases free_called_once callbackSettings_proper rfl callbackTree_lifetime with
    ⟨t, hrep, hreturns, _, hend⟩
  have hsize : t.size < 2 ^ 32 := by
    rcases callbackTree_lifetime.ledger callbackSettings_proper rfl with
      ⟨_, _, t', gone, hvalid, hledger⟩
    have hmade := hledger.balance.length_eq
    rw [List.length_append, places, List.length_map, ColourTree.length_toList,
      ← hrep.unique hvalid.rep] at hmade
    exact Nat.lt_of_le_of_lt (Nat.le_of_add_right_le (Nat.le_of_eq hmade.symm))
      (by decide : 7 < 2 ^ 32)
  rcases (hreturns hsize).right with ⟨tree', huninit⟩
  exact ⟨rfl, tree', huninit, (hend tree' huninit).right.right⟩

end RBTree
end MyLibs
