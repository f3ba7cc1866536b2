import MyLibs.RBTree.Runs

/-!
# What the self-test finds

`test_rb_tree` looks at every element below the one it is given. It is right about any
tree in memory, and in a reachable tree it finds a single element of the wrong colour.
-/

namespace MyLibs
namespace RBTree

open Foundation

variable {κ : Type} {s : Nodes κ} {t : ColourTree (Node κ)} {ctx : Context (Node κ)} {fuel : Nat}

/-- The numbers of black elements that the subtrees report. -/
theorem testRbTree_node {c : Colour} {a b : ColourTree (Node κ)} {v : Node κ} {m n : Int}
    (h : Rep s (plug ctx (.node c a v b)))
    (ha : testRbTree s fuel (addrOf s.nullElement a) = .ok m)
    (hb : testRbTree s fuel (addrOf s.nullElement b) = .ok n) :
    testRbTree s (fuel + 1) v.addr = .ok
      (if c = .red ∧ (a.colour = .red ∨ b.colour = .red) then -1
        else if m < 0 ∨ n < 0 ∨ m ≠ n then -1
        else m + if c = .black then 1 else 0) := by
  have hnode : Rep s (plug ctx (.mk .left c a v b)) := h
  have hleft : Rep s (plug (⟨.left, c, v, b⟩ :: ctx) a) := h
  have hright : Rep s (plug (⟨.right, c, v, a⟩ :: ctx) b) := h
  rcases hleft.exists_element with ⟨left, hleftElement, hleftColour⟩
  rcases hright.exists_element with ⟨right, hrightElement, hrightColour⟩
  rw [testRbTree, hnode.element]
  simp only [bind, Except.bind, mkElement, if_neg hleft.addrOf_ne_NULL, hleftElement,
    hrightElement, hleftColour, hrightColour, ha, hb]
  split
  · rfl
  · split <;> rfl

theorem testRbTree_reports (hfuel : t.height < fuel) (h : Rep s (plug ctx t))
    (hwrong : forall n, ¬ IsRedBlack t n) :
    testRbTree s fuel (addrOf s.nullElement t) = .ok (-1) := by
  induction t generalizing ctx fuel with
  | nil => exact absurd (isRedBlack_nil_iff.mpr rfl) (hwrong 0)
  | node c a v b iha ihb =>
      cases fuel with
      | zero => cases hfuel
      | succ fuel =>
          rw [ColourTree.height] at hfuel
          have hleft : Rep s (plug (⟨.left, c, v, b⟩ :: ctx) a) := h
          have hright : Rep s (plug (⟨.right, c, v, a⟩ :: ctx) b) := h
          have hfuelLeft : a.height < fuel := by omega
          have hfuelRight : b.height < fuel := by omega
          show testRbTree s (fuel + 1) v.addr = _
          by_cases ha : exists m, IsRedBlack a m
          · rcases ha with ⟨m, ha⟩
            have hcountLeft := testRbTree_spec hfuelLeft hleft ha
            by_cases hb : exists n, IsRedBlack b n
            · rcases hb with ⟨n, hb⟩
              rw [testRbTree_node h hcountLeft (testRbTree_spec hfuelRight hright hb)]
              by_cases hcolour : c = .red ∧ (a.colour = .red ∨ b.colour = .red)
              · rw [if_pos hcolour]
              · have hne : (m : Int) ≠ n := by
                  intro heq
                  rw [← Int.ofNat.inj heq] at hb
                  rcases ha.node v hcolour hb with ⟨k, hk⟩
                  exact hwrong k hk
                rw [if_neg hcolour, if_pos (Or.inr (Or.inr hne))]
            · have hbad := ihb hfuelRight hright (not_exists.mp hb)
              rw [testRbTree_node h hcountLeft hbad]
              simp
          · have hbad := iha hfuelLeft hleft (not_exists.mp ha)
            by_cases hb : exists n, IsRedBlack b n
            · rcases hb with ⟨n, hb⟩
              rw [testRbTree_node h hbad (testRbTree_spec hfuelRight hright hb)]
              simp
            · rw [testRbTree_node h hbad (ihb hfuelRight hright (not_exists.mp hb))]
              simp

/-- The self-test is exact for every tree in memory, whatever its colours: it returns the
black height if the tree has one, and -1 if the rules are broken anywhere. -/
theorem selfTest_exact (h : Rep s t) (hfuel : t.height < fuel) :
    (forall n : Nat, testRbTree s fuel s.root = .ok (n : Int) <-> IsRedBlack t n) ∧
      (testRbTree s fuel s.root = .ok (-1) <-> forall n, ¬ IsRedBlack t n) := by
  have hrep : Rep s (plug [] t) := h
  rw [h.root_eq]
  by_cases hrb : exists n, IsRedBlack t n
  · rcases hrb with ⟨m, hm⟩
    have hcount := testRbTree_spec hfuel hrep hm
    rw [hcount]
    constructor
    · intro n
      constructor
      · intro heq
        rw [← Int.ofNat.inj (Except.ok.inj heq)]
        exact hm
      · intro hn
        rw [hm.unique hn]
    · constructor
      · intro heq
        cases heq
      · intro hnone
        exact absurd hm (hnone m)
  · have hnone := not_exists.mp hrb
    rw [testRbTree_reports hfuel hrep hnone]
    constructor
    · intro n
      refine iff_of_false (fun heq => ?_) (hnone n)
      cases heq
    · exact iff_of_true rfl hnone

variable {settings : Settings κ} {calls : List (Call κ)} {tree : RbTree κ}

/-- In every reachable tree the self-test finds any one element, other than the root, that
gets the wrong colour. -/
theorem selfTest_catches_recolouring (h : settings.Proper)
    (hrun : Run Call.Allowed settings.start calls tree) {p : Ptr} {e : Element κ} {c : Colour}
    (hstored : p ≠ tree.nodes.nullElement) (hroot : p ≠ tree.nodes.root)
    (helement : tree.nodes.element p = .ok e) (hcolour : c ≠ e.colour) :
    exists t s, Rep tree.nodes t ∧ tree.nodes.setColour p c = .ok s ∧
      forall fuel, t.height < fuel -> testRbTree s fuel s.root = .ok (-1) := by
  rcases hrun.valid h with ⟨_, t, hvalid⟩
  have hheap : tree.nodes.heap p ≠ none := by
    intro hnone
    rw [Nodes.element, hnone] at helement
    cases helement
  rcases (hvalid.owned p hheap) with hnull | hp
  · exact absurd hnull hstored
  · rcases List.mem_map.mp hp with ⟨v, hv, haddr⟩
    rcases ColourTree.exists_place hv with ⟨ctx, c', a, b, hplace⟩
    have hrep : Rep tree.nodes (plug ctx (.mk .left c' a v b)) := by
      rw [← hplace]
      exact hvalid.rep
    rcases hrep.setColour c with ⟨s, hset, hnext⟩
    rw [haddr] at hset
    refine ⟨t, s, hvalid.rep, hset, fun fuel hfuel => ?_⟩
    have hrecoloured : c ≠ c' := by
      have hsame := hrep.element
      rw [haddr, helement] at hsame
      rw [Except.ok.inj hsame, mkElement_colour] at hcolour
      exact hcolour
    cases ctx with
    | nil =>
        refine absurd ?_ hroot
        rw [hrep.root_eq, ← haddr]
        rfl
    | cons f ctx =>
        rcases hvalid.redBlack with ⟨_, n, hrb⟩
        rw [hplace] at hrb
        have hsame : (ColourTree.mk .left c a v b).height =
            (ColourTree.mk .left c' a v b).height := rfl
        have hheight : (plug (f :: ctx) (.mk .left c a v b)).height < fuel := by
          rw [height_plug_congr (f :: ctx) hsame, ← hplace]
          exact hfuel
        have hafter : Rep s (plug [] (plug (f :: ctx) (.mk .left c a v b))) := hnext.rep
        rw [hnext.rep.root_eq]
        exact testRbTree_reports hheight hafter (hrb.not_recoloured hrecoloured)

theorem twoInserts_run : exists tree, Run Call.Allowed integerSettings.start
    [.insert 5 0 (mallocAt 100), .insert 3 0 (mallocAt 101)] tree ∧
      tree.nodes.root = 100 ∧ exists e, tree.nodes.element 101 = .ok e ∧ e.colour = .red := by
  have hrun : exists tree, Run Call.Allowed integerSettings.start
      (([] ++ [.insert 5 0 (mallocAt 100)]) ++ [.insert 3 0 (mallocAt 101)]) tree ∧
        tree.nodes.root = 100 ∧ exists e, tree.nodes.element 101 = .ok e ∧ e.colour = .red := by
    refine ⟨_, Run.snoc (Run.snoc Run.nil ?_ rfl) ?_ rfl, rfl, _, rfl, rfl⟩
    · exact freshMalloc_mallocAt 100
    · exact freshMalloc_mallocAt 101
  exact hrun

theorem selfTest_exact_twoInserts : exists tree : RbTree Int,
    tree.nodes.root = 100 ∧ exists t : ColourTree (Node Int), forall n : Nat,
      testRbTree tree.nodes (t.height + 1) tree.nodes.root = .ok (n : Int) <->
        IsRedBlack t n := by
  rcases twoInserts_run with ⟨tree, hrun, hroot, _⟩
  rcases hrun.valid integerSettings_proper with ⟨_, t, hvalid⟩
  exact ⟨tree, hroot, t, (selfTest_exact hvalid.rep (Nat.lt_succ_self _)).left⟩

theorem selfTest_catches_recolouring_twoInserts : exists (s : Nodes Int) (height : Nat),
    testRbTree s (height + 1) s.root = .ok (-1) := by
  rcases twoInserts_run with ⟨tree, hrun, hroot, e, helement, hred⟩
  have hblacken : Colour.black ≠ e.colour := by
    rw [hred]
    exact Colour.noConfusion
  have hnull : 101 ≠ tree.nodes.nullElement := by
    rw [(hrun.valid integerSettings_proper).left.nullElement_eq]
    decide
  have hother : 101 ≠ tree.nodes.root := by
    rw [hroot]
    decide
  rcases selfTest_catches_recolouring integerSettings_proper hrun hnull hother helement
    hblacken with ⟨t, s, _, _, hfound⟩
  exact ⟨s, t.height, hfound _ (Nat.lt_succ_self _)⟩

end RBTree
end MyLibs
