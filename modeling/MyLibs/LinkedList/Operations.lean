import MyLibs.LinkedList.Layout

/-!
# The operations on the sequence

Five functions insert an item, each with its own order of writes. They all come
down to one insertion between two neighbours.
-/

namespace MyLibs
namespace LinkedList

open Foundation

variable {mem mem' : Memory} {list data : Ptr} {block : Block}
  {cells first rest : List (Ptr × Ptr)} {c : Ptr × Ptr}

/-- `my_malloc` found a block that was not in use, with the flag cleared. -/
structure Block.Fresh (block : Block) (mem : Memory) : Prop where
  address_ne : block.address ≠ NULL
  unused : mem.items block.address = none
  address_lt : block.address < 2 ^ 64
  flag : block.contents.foreach = 0

/-!
## Insertion between two neighbours
-/

def linkBetween (mem : Memory) (list prev next data : Ptr) (block : Block) :
    Option (Ptr × Memory) := do
  let item := block.address
  let mem := mem.newItem block fun contents =>
    { contents with data := data, list := list, next := next, prev := prev }
  let mem <- mem.writeNextOrHead list prev item
  let mem <- mem.writePrevOrTail list next item
  let mem <- mem.writeList list fun header =>
    { header with length := sizet (header.length + 1) }
  some (item, mem)

structure Grown (mem mem' : Memory) (list data : Ptr) (block : Block)
    (cells' : List (Ptr × Ptr)) : Prop where
  holds : Holds mem' list cells'
  payload_eq : mem'.payload =
    Function.update mem.payload block.address (some (data, list, block.contents.foreach))
  lists_eq : forall l, l ≠ list -> mem'.lists l = mem.lists l
  log_eq : mem'.log = mem.log

theorem Holds.length_succ_lt (h : Holds mem list cells) (hblock : block.Fresh mem) :
    cells.length + 1 < 2 ^ 64 := by
  have hnot : block.address ∉ addrs cells := by
    intro hmem
    rcases List.mem_map.mp hmem with ⟨c, hc, heq⟩
    have hne := h.exists_of_mem hc
    rw [heq] at hne
    exact hne hblock.unused
  have hbelow := length_lt_of_nodup (Nat.two_pow_pos 64)
    (List.nodup_cons.mpr ⟨hnot, h.nodup⟩)
  rw [List.length_cons, addrs, List.length_map] at hbelow
  apply hbelow
  intro p hp
  rcases List.mem_cons.mp hp with heq | hp
  · rw [heq]
    exact ⟨hblock.address_ne, hblock.address_lt⟩
  · rcases List.mem_map.mp hp with ⟨c, hc, rfl⟩
    exact ⟨h.addr_ne hc, h.bound _ (h.exists_of_mem hc)⟩

theorem Holds.header_inserted (h : Holds mem list (first ++ rest))
    (hlength : (first ++ rest).length + 1 < 2 ^ 64) (c : Ptr × Ptr) :
    ({ head := if tailOf first = NULL then c.1 else headOf (first ++ rest)
       tail := if headOf rest = NULL then c.1 else tailOf (first ++ rest)
       length := sizet ((first ++ rest).length + 1) } : MyList) =
      { head := headOf (first ++ c :: rest)
        tail := tailOf (first ++ c :: rest)
        length := (first ++ c :: rest).length } := by
  have hfirst := h.tailOf_eq_null_iff fun c hc => List.mem_append_left rest hc
  have hrest := h.headOf_eq_null_iff fun c hc => List.mem_append_right first hc
  have hsizet : sizet ((first ++ rest).length + 1) = (first ++ rest).length + 1 :=
    Nat.mod_eq_of_lt hlength
  rw [headOf_append_cons, tailOf_append_cons, hsizet]
  simp only [hfirst, hrest, List.length_append, List.length_cons, Nat.add_assoc]

theorem Holds.payload_inserted (h : Holds mem list (first ++ rest)) (hblock : block.Fresh mem)
    {data : Ptr} {c : Ptr × Ptr} (hc : c ∈ first ++ (block.address, data) :: rest) :
    Function.update mem.payload block.address (some (data, list, block.contents.foreach)) c.1 =
      some (c.2, list, 0) := by
  by_cases hcb : c = (block.address, data)
  · rw [hcb, Function.update_self, hblock.flag]
  · have hold : c ∈ first ++ rest := by
      simp only [List.mem_append, List.mem_cons] at hc ⊢
      tauto
    have hne : c.1 ≠ block.address := by
      intro heq
      have hlive := h.exists_of_mem hold
      rw [heq] at hlive
      exact hlive hblock.unused
    rw [Function.update_of_ne hne]
    exact h.payload c hold

theorem Holds.bound_inserted (h : Holds mem list cells) (hblock : block.Fresh mem)
    {item : MyListIter} {p : Ptr}
    (hp : Function.update mem.items block.address (some item) p ≠ none) : p < 2 ^ 64 := by
  by_cases hpb : p = block.address
  · rw [hpb]
    exact hblock.address_lt
  · rw [Function.update_of_ne hpb] at hp
    exact h.bound p hp

theorem linkBetween_spec (h : Holds mem list (first ++ rest)) (hblock : block.Fresh mem)
    (data : Ptr) : exists mem',
      linkBetween mem list (tailOf first) (headOf rest) data block =
        some (block.address, mem') ∧
      Grown mem mem' list data block (first ++ (block.address, data) :: rest) := by
  generalize hmem₀ : mem.newItem block (fun contents => { contents with
    data := data, list := list, next := headOf rest, prev := tailOf first }) = mem₀
  have hitems : mem₀.items = Function.update mem.items block.address
      (some { block.contents with
        data := data, list := list, next := headOf rest, prev := tailOf first }) := by
    rw [← hmem₀]
    rfl
  have hlinks₀ : mem₀.links =
      Function.update mem.links block.address (some (headOf rest, tailOf first)) := by
    rw [← hmem₀]
    exact links_update block.address _
  have hpayload₀ : mem₀.payload = Function.update mem.payload block.address
      (some (data, list, block.contents.foreach)) := by
    rw [← hmem₀]
    exact payload_update block.address _
  have hexists : forall q, mem.items q ≠ none -> mem₀.items q ≠ none := by
    intro q hne
    have hqb : q ≠ block.address := by
      rintro rfl
      exact hne hblock.unused
    rw [hitems, Function.update_of_ne hqb]
    exact hne
  have hnull₀ : mem₀.items NULL = none := by
    rw [hitems, Function.update_of_ne hblock.address_ne.symm]
    exact h.null
  have hheader₀ : mem₀.lists list = some
      { head := headOf (first ++ rest)
        tail := tailOf (first ++ rest)
        length := (first ++ rest).length } := by
    rw [← hmem₀]
    exact h.header
  rcases writeNextOrHead_spec hnull₀ hheader₀
      ((h.tailOf_exists fun c hc => List.mem_append_left rest hc).imp_right (hexists _))
      block.address with
    ⟨mem₁, hfirstWrite, hlinks₁, hheader₁, hkept₁⟩
  have hnull₁ : mem₁.items NULL = none := by
    by_contra hne
    exact hkept₁.items_ne_none.mp hne hnull₀
  rcases writePrevOrTail_spec hnull₁ hheader₁
      ((h.headOf_exists fun c hc => List.mem_append_right first hc).imp_right fun hne =>
        hkept₁.items_ne_none.mpr (hexists _ hne))
      block.address with
    ⟨mem₂, hsecondWrite, hlinks₂, hheader₂, hkept₂⟩
  rcases writeList_spec hheader₂ fun header =>
      { header with length := sizet (header.length + 1) } with
    ⟨mem₃, hthirdWrite, hlinks₃, hheader₃, hkept₃⟩
  have hkept := (hkept₁.trans hkept₂).trans hkept₃
  refine ⟨mem₃, ?_, ?_, ?_, ?_, ?_⟩
  · rw [linkBetween]
    simp only [hmem₀, hfirstWrite, hsecondWrite, hthirdWrite, Option.bind_eq_bind, Option.bind_some]
  · constructor
    · exact h.list_ne
    · by_contra hne
      exact hkept.items_ne_none.mp hne hnull₀
    · rw [hheader₃]
      exact congrArg some
        (h.header_inserted (h.length_succ_lt hblock) (block.address, data))
    · have hchain := h.chain
      rw [addrs_append] at hchain
      have hinsert := hchain.insert h.links_null
        (links_eq_none_iff.mpr hblock.unused) hblock.address_ne
      simp only [addrs_eq_nil_iff] at hinsert
      rw [hlinks₃, hlinks₂, hlinks₁, hlinks₀, headOf_append_cons, addrs_append]
      exact hinsert
    · intro c hc
      rw [hkept.payload_eq, hpayload₀]
      exact h.payload_inserted hblock hc
    · intro p hp
      have hp₀ := hkept.items_ne_none.mp hp
      rw [hitems] at hp₀
      exact h.bound_inserted hblock hp₀
  · exact hkept.payload_eq.trans hpayload₀
  · intro l hl
    rw [hkept.lists_eq l hl, ← hmem₀]
    rfl
  · rw [hkept.log_eq, ← hmem₀]
    rfl

/-!
## The five functions
-/

section Insertions

variable {header : MyList}

theorem myListPrepend_eq (hlist : list ≠ NULL) (hblock : block.address ≠ NULL)
    (hheader : mem.lists list = some header) : myListPrepend mem list data block =
      linkBetween mem list NULL header.head data block := by
  rw [myListPrepend, if_neg hlist, if_neg hblock, hheader]
  rfl

/-- Setting `tail` can wait until the item before is linked. -/
theorem writeTail_writeNextOrHead (mem : Memory) (list p next tail : Ptr) :
    ((mem.writeList list fun header => { header with tail := tail }).bind fun mem =>
        mem.writeNextOrHead list p next) =
      (mem.writeNextOrHead list p next).bind fun mem =>
        mem.writeList list fun header => { header with tail := tail } := by
  by_cases hp : p = NULL
  · cases hlist : mem.lists list with
    | none => simp [Memory.writeNextOrHead, Memory.writeList, hp, hlist]
    | some header => simp [Memory.writeNextOrHead, Memory.writeList, hp, hlist]
  · cases hlist : mem.lists list with
    | none =>
        cases hitem : mem.items p with
        | none =>
            simp [Memory.writeNextOrHead, Memory.writeList, Memory.writeItem, hp, hlist, hitem]
        | some item =>
            simp [Memory.writeNextOrHead, Memory.writeList, Memory.writeItem, hp, hlist, hitem]
    | some header =>
        cases hitem : mem.items p with
        | none =>
            simp [Memory.writeNextOrHead, Memory.writeList, Memory.writeItem, hp, hlist, hitem]
        | some item =>
            simp [Memory.writeNextOrHead, Memory.writeList, Memory.writeItem, hp, hlist, hitem]

theorem myListAppend_eq (hlist : list ≠ NULL) (hblock : block.address ≠ NULL)
    (hheader : mem.lists list = some header) : myListAppend mem list data block =
      linkBetween mem list header.tail NULL data block := by
  rw [myListAppend, if_neg hlist, if_neg hblock, hheader]
  have hswap := writeTail_writeNextOrHead
    (mem.newItem block fun contents => { contents with
      list := list, data := data, prev := header.tail, next := NULL })
    list header.tail block.address block.address
  simp only [Option.bind_eq_bind, Option.bind_some]
  rw [← Option.bind_assoc, hswap, Option.bind_assoc]
  rfl

/-- `my_list_add` tests `tail` where `my_list_prepend` tests the successor. -/
theorem myListAdd_eq (hlist : list ≠ NULL) (hblock : block.address ≠ NULL)
    (hheader : mem.lists list = some header) (hempty : header.head = NULL <-> header.tail = NULL) :
    myListAdd mem list data block = linkBetween mem list NULL header.head data block := by
  rw [myListAdd, if_neg hlist, if_neg hblock, hheader, linkBetween]
  by_cases hhead : header.head = NULL
  · have htail := hempty.mp hhead
    simp [Memory.newItem, Memory.writeList, Memory.writePrev, Memory.writeNextOrHead,
      Memory.writePrevOrTail, hheader, hhead, htail]
  · have htail : header.tail ≠ NULL := fun htail => hhead (hempty.mpr htail)
    cases hitem : Function.update mem.items block.address
        (some { block.contents with
          data := data, list := list, next := header.head, prev := NULL }) header.head with
    | none =>
        simp [Memory.newItem, Memory.writeList, Memory.writePrev, Memory.writeNextOrHead,
          Memory.writePrevOrTail, Memory.writeItem, hheader, hhead, hitem]
    | some item =>
        simp [Memory.newItem, Memory.writeList, Memory.writePrev, Memory.writeNextOrHead,
          Memory.writePrevOrTail, Memory.writeItem, hheader, hhead, htail, hitem]

theorem myListPrepend_spec (h : Holds mem list cells) (hblock : block.Fresh mem)
    (data : Ptr) : exists mem',
      myListPrepend mem list data block = some (block.address, mem') ∧
      Grown mem mem' list data block ((block.address, data) :: cells) := by
  rw [myListPrepend_eq h.list_ne hblock.address_ne h.header]
  have hbehind : Holds mem list ([] ++ cells) := h
  exact linkBetween_spec hbehind hblock data

theorem myListAdd_spec (h : Holds mem list cells) (hblock : block.Fresh mem)
    (data : Ptr) : exists mem',
      myListAdd mem list data block = some (block.address, mem') ∧
      Grown mem mem' list data block ((block.address, data) :: cells) := by
  have hempty : headOf cells = NULL <-> tailOf cells = NULL := by
    rw [h.headOf_eq_null_iff fun c hc => hc, h.tailOf_eq_null_iff fun c hc => hc]
  rw [myListAdd_eq h.list_ne hblock.address_ne h.header hempty]
  have hbehind : Holds mem list ([] ++ cells) := h
  exact linkBetween_spec hbehind hblock data

theorem myListAppend_spec (h : Holds mem list cells) (hblock : block.Fresh mem)
    (data : Ptr) : exists mem',
      myListAppend mem list data block = some (block.address, mem') ∧
      Grown mem mem' list data block (cells ++ [(block.address, data)]) := by
  rw [myListAppend_eq h.list_ne hblock.address_ne h.header]
  have hwhole : Holds mem list (cells ++ []) := by
    rw [List.append_nil]
    exact h
  exact linkBetween_spec hwhole hblock data

theorem Holds.headOf_eq_iff (h : Holds mem list (first ++ c :: rest)) :
    headOf (first ++ c :: rest) = c.1 <-> first = [] := by
  cases first with
  | nil => exact ⟨fun _ => rfl, fun _ => rfl⟩
  | cons d first =>
      constructor
      · intro heq
        have hnodup := h.nodup
        rw [addrs_append, List.nodup_append] at hnodup
        exact absurd heq
          (hnodup.right.right d.1 (List.mem_cons_self ..) c.1 (List.mem_cons_self ..))
      · intro heq
        cases heq

theorem myListIterInsert_spec (h : Holds mem list (first ++ c :: rest))
    (hblock : block.Fresh mem) (data : Ptr) : exists mem',
      myListIterInsert mem c.1 data block = some (block.address, mem') ∧
      Grown mem mem' list data block (first ++ (block.address, data) :: c :: rest) := by
  have hc : c ∈ first ++ c :: rest := List.mem_append_right _ (List.mem_cons_self ..)
  rw [myListIterInsert, if_neg (h.addr_ne hc), h.item_at]
  simp only [Option.bind_eq_bind, Option.bind_some, h.header]
  by_cases hfirst : first = []
  · rw [if_pos (h.headOf_eq_iff.mpr hfirst)]
    subst hfirst
    exact myListPrepend_spec h hblock data
  · rw [if_neg (fun heq => hfirst (h.headOf_eq_iff.mp heq)), if_neg hblock.address_ne]
    have htail : tailOf first ≠ NULL := by
      intro heq
      exact hfirst ((h.tailOf_eq_null_iff fun c hc => List.mem_append_left _ hc).mp heq)
    have hnext : headOf (c :: rest) ≠ NULL := h.addr_ne hc
    have hspec := linkBetween_spec h hblock data
    rw [linkBetween] at hspec
    simp only [Memory.writeNextOrHead, if_neg htail, Memory.writePrevOrTail,
      if_neg hnext] at hspec
    exact hspec

end Insertions

theorem insertions_failed (data : Ptr) (hfull : block.address = NULL)
    (h : Holds mem list cells) :
    myListPrepend mem list data block = some (NULL, mem) ∧
      myListAdd mem list data block = some (NULL, mem) ∧
      myListAppend mem list data block = some (NULL, mem) ∧
      forall c, c ∈ cells -> myListIterInsert mem c.1 data block = some (NULL, mem) := by
  have hprepend : myListPrepend mem list data block = some (NULL, mem) := by
    rw [myListPrepend, if_neg h.list_ne, if_pos hfull]
  refine ⟨hprepend, ?_, ?_, ?_⟩
  · rw [myListAdd, if_neg h.list_ne, if_pos hfull]
  · rw [myListAppend, if_neg h.list_ne, if_pos hfull]
  · intro c hc
    rcases List.append_of_mem hc with ⟨first, rest, hsplit⟩
    rw [hsplit] at h
    rw [myListIterInsert, if_neg (h.addr_ne (hsplit ▸ hc)), h.item_at]
    simp only [Option.bind_eq_bind, Option.bind_some, h.header, hprepend, if_pos hfull, ite_self]

/-!
## Searching
-/

theorem findItem_spec {found : Ptr -> Bool} {fuel : Nat}
    (h : Holds mem list (first ++ cells)) (hfuel : cells.length < fuel) :
    (findItem mem found fuel (headOf cells) = some NULL ∧
        forall c, c ∈ cells -> found c.2 = false) ∨
      exists before c after, cells = before ++ c :: after ∧ found c.2 = true ∧
        (forall d, d ∈ before -> found d.2 = false) ∧
        findItem mem found fuel (headOf cells) = some c.1 := by
  induction cells generalizing first fuel with
  | nil =>
      rcases Nat.exists_eq_succ_of_ne_zero (Nat.ne_of_gt hfuel) with ⟨turns, hturns⟩
      subst hturns
      exact Or.inl ⟨rfl, fun c hc => by cases hc⟩
  | cons c cells ih =>
      rcases Nat.exists_eq_succ_of_ne_zero (Nat.ne_of_gt (Nat.zero_lt_of_lt hfuel)) with
        ⟨turns, hturns⟩
      subst hturns
      have hne : c.1 ≠ NULL := h.addr_ne (List.mem_append_right _ (List.mem_cons_self ..))
      have hturn : findItem mem found (turns + 1) (headOf (c :: cells)) =
          if found c.2 then some c.1 else findItem mem found turns (headOf cells) := by
        show findItem mem found (turns + 1) c.1 = _
        rw [findItem, if_neg hne, h.item_at]
        rfl
      cases hfound : found c.2 with
      | true =>
          right
          refine ⟨[], c, cells, rfl, hfound, fun d hd => (by cases hd), ?_⟩
          rw [hturn, hfound, if_pos rfl]
      | false =>
          rw [hfound, if_neg Bool.false_ne_true] at hturn
          have hshift : Holds mem list ((first ++ [c]) ++ cells) := by
            rw [List.append_assoc]
            exact h
          rcases ih hshift (Nat.lt_of_succ_lt_succ hfuel) with
            ⟨hnone, hall⟩ | ⟨before, d, after, hsplit, hd, hbefore, hsome⟩
          · left
            refine ⟨hturn.trans hnone, ?_⟩
            intro d hd
            rcases List.mem_cons.mp hd with heq | hd
            · rw [heq]
              exact hfound
            · exact hall d hd
          · right
            refine ⟨c :: before, d, after, by rw [hsplit]; rfl, hd, ?_, hturn.trans hsome⟩
            intro e he
            rcases List.mem_cons.mp he with heq | he
            · rw [heq]
              exact hfound
            · exact hbefore e he

theorem findFromHead_spec (h : Holds mem list cells) (found : Ptr -> Bool) :
    (findFromHead mem list found = some NULL ∧ forall c, c ∈ cells -> found c.2 = false) ∨
      exists first c rest, cells = first ++ c :: rest ∧ found c.2 = true ∧
        (forall d, d ∈ first -> found d.2 = false) ∧
        findFromHead mem list found = some c.1 := by
  rw [findFromHead, h.header]
  have hbehind : Holds mem list ([] ++ cells) := h
  exact findItem_spec hbehind (Nat.lt_succ_self _)

/-!
## Deletion
-/

structure Shrunk (mem mem' : Memory) (list p : Ptr) (cells' : List (Ptr × Ptr)) : Prop where
  holds : Holds mem' list cells'
  payload_eq : mem'.payload = Function.update mem.payload p none
  lists_eq : forall l, l ≠ list -> mem'.lists l = mem.lists l
  log_eq : mem'.log = p :: mem.log

theorem update_none_links (mem : Memory) (p : Ptr) (log : List Ptr) :
    Memory.links { mem with items := Function.update mem.items p none, log := log } =
      Function.update mem.links p none := by
  funext q
  by_cases hq : q = p
  · simp [Memory.links, hq]
  · simp [Memory.links, Function.update_of_ne hq]

theorem update_none_payload (mem : Memory) (p : Ptr) (log : List Ptr) :
    Memory.payload { mem with items := Function.update mem.items p none, log := log } =
      Function.update mem.payload p none := by
  funext q
  by_cases hq : q = p
  · simp [Memory.payload, hq]
  · simp [Memory.payload, Function.update_of_ne hq]

theorem Holds.header_unlinked (h : Holds mem list (first ++ c :: rest)) :
    ({ head := if tailOf first = NULL then headOf rest else headOf (first ++ c :: rest)
       tail := if headOf rest = NULL then tailOf first else tailOf (first ++ c :: rest)
       length := sizetSub (first ++ c :: rest).length 1 } : MyList) =
      { head := headOf (first ++ rest)
        tail := tailOf (first ++ rest)
        length := (first ++ rest).length } := by
  have hfirst := h.tailOf_eq_null_iff fun d hd => List.mem_append_left _ hd
  have hrest := h.headOf_eq_null_iff fun d hd =>
    List.mem_append_right first (List.mem_cons_of_mem c hd)
  have hlength := h.length_lt
  rw [headOf_append_cons, tailOf_append_cons,
    sizetSub_of_le (by rw [List.length_append, List.length_cons]; omega) hlength,
      List.length_append, List.length_append, List.length_cons]
  have hhead : (if tailOf first = NULL then headOf rest
      else if first = [] then c.1 else headOf (first ++ rest)) = headOf (first ++ rest) := by
    by_cases hnil : first = []
    · rw [if_pos (hfirst.mpr hnil), hnil]
      rfl
    · rw [if_neg (fun heq => hnil (hfirst.mp heq)), if_neg hnil]
  have htail : (if headOf rest = NULL then tailOf first
      else if rest = [] then c.1 else tailOf (first ++ rest)) = tailOf (first ++ rest) := by
    by_cases hnil : rest = []
    · rw [if_pos (hrest.mpr hnil), hnil, List.append_nil]
    · rw [if_neg (fun heq => hnil (hrest.mp heq)), if_neg hnil]
  rw [hhead, htail]
  rfl

theorem myListIterDelete_spec (h : Holds mem list (first ++ c :: rest)) :
    exists mem', myListIterDelete mem c.1 = some mem' ∧
      Shrunk mem mem' list c.1 (first ++ rest) := by
  have hc : c ∈ first ++ c :: rest := List.mem_append_right _ (List.mem_cons_self ..)
  have hitem := h.item_at
  rcases writePrevOrTail_spec h.null h.header
      (h.headOf_exists fun d hd => List.mem_append_right first (List.mem_cons_of_mem c hd))
      (tailOf first) with
    ⟨mem₁, hfirstWrite, hlinks₁, hheader₁, hkept₁⟩
  have hnull₁ : mem₁.items NULL = none := by
    by_contra hne
    exact hkept₁.items_ne_none.mp hne h.null
  rcases writeNextOrHead_spec hnull₁ hheader₁
      ((h.tailOf_exists fun d hd => List.mem_append_left _ hd).imp_right
        hkept₁.items_ne_none.mpr) (headOf rest) with
    ⟨mem₂, hsecondWrite, hlinks₂, hheader₂, hkept₂⟩
  rcases writeList_spec hheader₂ fun header =>
      { header with length := sizetSub header.length 1 } with
    ⟨mem₃, hthirdWrite, hlinks₃, hheader₃, hkept₃⟩
  have hkept := (hkept₁.trans hkept₂).trans hkept₃
  refine ⟨{ mem₃ with
    items := Function.update mem₃.items c.1 none, log := c.1 :: mem₃.log }, ?_, ?_⟩
  · rw [myListIterDelete, if_neg (h.addr_ne hc), hitem]
    simp [hfirstWrite, hsecondWrite, hthirdWrite]
  · constructor
    · constructor
      · exact h.list_ne
      · show Function.update mem₃.items c.1 none NULL = none
        rw [Function.update_of_ne (h.addr_ne hc).symm]
        by_contra hne
        exact hkept.items_ne_none.mp hne h.null
      · exact hheader₃.trans (congrArg some h.header_unlinked)
      · have hchain := h.chain
        rw [addrs_append] at hchain
        have hunlink := hchain.unlink h.links_null hchain.links_at
        rw [update_none_links, hlinks₃, hlinks₂, hlinks₁, addrs_append]
        have hstart := congrArg MyList.head h.header_unlinked
        simp only at hstart
        rw [← hstart]
        exact hunlink
      · intro d hd
        have hne : d.1 ≠ c.1 := by
          have hnodup := h.nodup
          rw [addrs_append] at hnodup
          have hnot : c.1 ∉ addrs first ++ addrs rest := (List.nodup_middle.mp hnodup).notMem
          rw [← addrs_append] at hnot
          intro heq
          exact hnot (List.mem_map.mpr ⟨d, hd, heq⟩)
        rw [update_none_payload, Function.update_of_ne hne, hkept.payload_eq]
        apply h.payload
        simp only [List.mem_append, List.mem_cons] at hd ⊢
        tauto
      · intro p hp
        have hp' : Function.update mem₃.items c.1 none p ≠ none := hp
        have hne : p ≠ c.1 := by
          intro heq
          rw [heq, Function.update_self] at hp'
          exact hp' rfl
        rw [Function.update_of_ne hne] at hp'
        exact h.bound p (hkept.items_ne_none.mp hp')
    · rw [update_none_payload, hkept.payload_eq]
    · exact hkept.lists_eq
    · exact congrArg (c.1 :: ·) hkept.log_eq

end LinkedList
end MyLibs
