import MyLibs.DynHash.Layout

/-!
# Taking a record out of its chain

The first part of `my_hash_delete` and of `my_hash_update`: the search for the
record along the chain of its bucket, and the unlinking that leaves one slot
free. The free slot is the record's own, or the second one of the chain when the
record was the head.
-/

namespace MyLibs
namespace DynHash

open Foundation

variable {hashnr : Ptr -> UInt32} {blength size : Nat}
variable {data : Nat -> HashLink} {record : Ptr}

/-!
## The search
-/

theorem findRecord_none {fuel start : Nat} {gpos : Option Nat} {path : List Nat}
    (h : Segment (nextOf data) start path NO_RECORD) (hpath : path ≠ [])
    (hnil : NO_RECORD ∉ path)
    (habsent : forall i, i ∈ path -> (data i).data ≠ record)
    (hfuel : path.length <= fuel) :
    findRecord data record fuel gpos start = some none := by
  induction path generalizing start fuel gpos with
  | nil => exact absurd rfl hpath
  | cons i path ih =>
      cases fuel with
      | zero => exact absurd hfuel (by simp)
      | succ fuel =>
          have hstart : start = i := h.left
          have htail : Segment (nextOf data) (data i).next path NO_RECORD := h.right
          have hi : (data i).data ≠ record := habsent i (List.mem_cons_self ..)
          cases path with
          | nil =>
              have hend : (data i).next = NO_RECORD := htail
              simp [findRecord, hstart, hi, hend]
          | cons j path =>
              have hj : (data i).next = j := htail.left
              have hne : j ≠ NO_RECORD := by
                rintro rfl
                exact hnil (by simp)
              have hrec : findRecord data record fuel (some i) (data i).next =
                  some none :=
                ih htail (by simp) (List.not_mem_of_not_mem_cons hnil)
                  (fun k hk => habsent k (List.mem_cons_of_mem i hk))
                  (Nat.le_of_succ_le_succ hfuel)
              rw [hj] at hrec
              simp [findRecord, hstart, hi, hj, hne, hrec]

def slotBefore (gpos : Option Nat) (before : List Nat) : Option Nat :=
  match before.getLast? with
  | some p => some p
  | none => gpos

theorem slotBefore_cons {gpos : Option Nat} {i : Nat} {before : List Nat} :
    slotBefore gpos (i :: before) = slotBefore (some i) before := by
  cases before with
  | nil => rfl
  | cons j before =>
      unfold slotBefore
      rw [List.getLast?_cons_cons, List.getLast?_cons]

theorem findRecord_some {fuel start x : Nat} {gpos : Option Nat}
    {before after : List Nat}
    (h : Segment (nextOf data) start (before ++ x :: after) NO_RECORD)
    (hnil : NO_RECORD ∉ before ++ x :: after)
    (habsent : forall i, i ∈ before -> (data i).data ≠ record)
    (hx : (data x).data = record) (hfuel : before.length < fuel) :
    findRecord data record fuel gpos start =
      some (some (slotBefore gpos before, x)) := by
  induction before generalizing start fuel gpos with
  | nil =>
      cases fuel with
      | zero => exact absurd hfuel (Nat.not_lt_zero _)
      | succ fuel =>
          have hstart : start = x := h.left
          simp [findRecord, hstart, hx, slotBefore]
  | cons i before ih =>
      cases fuel with
      | zero => exact absurd hfuel (Nat.not_lt_zero _)
      | succ fuel =>
          have hstart : start = i := h.left
          have htail : Segment (nextOf data) (data i).next (before ++ x :: after)
              NO_RECORD := h.right
          have hi : (data i).data ≠ record := habsent i (List.mem_cons_self ..)
          have hne : (data i).next ≠ NO_RECORD := by
            rcases htail.eq_cons (by simp) with ⟨rest, hrest⟩
            intro heq
            apply hnil
            rw [List.cons_append, hrest, heq]
            simp
          have hrec : findRecord data record fuel (some i) (data i).next =
              some (some (slotBefore (some i) before, x)) :=
            ih htail (List.not_mem_of_not_mem_cons hnil)
              (fun k hk => habsent k (List.mem_cons_of_mem i hk))
              (Nat.lt_of_succ_lt_succ hfuel)
          rw [slotBefore_cons]
          simp [findRecord, hstart, hi, hne, hrec]

structure Found (hashnr : Ptr -> UInt32) (blength size : Nat)
    (data : Nat -> HashLink) (record : Ptr) (gpos : Option Nat) (x : Nat) : Prop where
  lt : x < size
  data_eq : (data x).data = record
  head : gpos = none -> homeOf hashnr blength size data x = x
  pred : forall p, gpos = some p -> p < size ∧ nextOf data p = x

theorem noRecord_not_mem (hsize : size < 2 ^ 31) : NO_RECORD ∉ Finset.range size := by
  rw [Finset.mem_range, NO_RECORD]
  omega

/-- What a search sees from the slot `b` on: live slots, those of the bucket `b`
among them. -/
structure WalkFrom (hashnr : Ptr -> UInt32) (blength size : Nat)
    (data : Nat -> HashLink) (b : Nat) (rest : List Nat) : Prop where
  segment : Segment (nextOf data) b (b :: rest) NO_RECORD
  nil_not_mem : NO_RECORD ∉ b :: rest
  length_lt : rest.length < size
  live : forall i, i ∈ b :: rest -> i < size
  bucket : forall i, i < size -> homeOf hashnr blength size data i = b ->
    i ∈ b :: rest

theorem exists_walkFrom {b : Nat}
    (h : Linked hashnr blength size data (Finset.range size))
    (hsize : size < 2 ^ 31) (hb : b < size) :
    exists rest, WalkFrom hashnr blength size data b rest := by
  have hnil := noRecord_not_mem hsize
  -- the slot `b` is on a chain, though perhaps not on its own bucket's
  rcases h b (Finset.mem_range.mpr hb) with ⟨whole, hwhole⟩
  have hbmem := (hwhole.mem_iff b).mpr ⟨Finset.mem_range.mpr hb, rfl⟩
  rcases List.append_of_mem hbmem with ⟨skipped, rest, hsplit⟩
  have hsegment := hwhole.segment
  have hwholeNil := hwhole.nil_not_mem hnil
  have hlength := hwhole.length_le_card hnil
  rw [hsplit] at hsegment hwholeNil hlength
  rw [Finset.card_range, List.length_append, List.length_cons] at hlength
  have hwalk : Segment (nextOf data) b (b :: rest) NO_RECORD :=
    ⟨rfl, hsegment.split_cons.right⟩
  have hwalkNil : NO_RECORD ∉ b :: rest := by
    intro hmem
    exact hwholeNil (List.mem_append_right _ hmem)
  refine ⟨rest, hwalk, hwalkNil, by omega, ?_, ?_⟩
  · intro i hi
    have hmem := (hwhole.mem_iff i).mp (by rw [hsplit]; exact List.mem_append_right _ hi)
    exact Finset.mem_range.mp hmem.left
  · intro i hi hhome
    -- the chain of the bucket `b` starts in the slot `b`
    have hlive := Finset.mem_range.mpr hi
    rcases h i hlive with ⟨path, hpath⟩
    rw [hhome] at hpath
    rcases hpath.eq_cons hlive hhome with ⟨tail, htail⟩
    have hpathSegment := hpath.segment
    have hpathNil := hpath.nil_not_mem hnil
    have himem := (hpath.mem_iff i).mpr ⟨hlive, hhome⟩
    rw [htail] at hpathSegment hpathNil himem
    rw [hpathSegment.unique hwalk hpathNil hwalkNil] at himem
    exact himem

theorem WalkFrom.found {b x : Nat} {rest before after : List Nat}
    (h : WalkFrom hashnr blength size data b rest)
    (hcut : b :: rest = before ++ x :: after) (hx : (data x).data = record)
    (hhome : homeOf hashnr blength size data x = b) :
    Found hashnr blength size data record (slotBefore none before) x := by
  have hwalk := h.segment
  have hlive := h.live
  rw [hcut] at hwalk hlive
  constructor
  · exact hlive x (by simp)
  · exact hx
  · intro hnone
    cases before with
    | nil => rw [hhome, hwalk.left]
    | cons i before =>
        rw [slotBefore_cons] at hnone
        unfold slotBefore at hnone
        split at hnone <;> exact absurd hnone (by simp)
  · intro p hp
    rcases List.eq_nil_or_concat before with hempty | ⟨initial, q, hlast⟩
    · rw [hempty] at hp
      exact absurd hp (by simp [slotBefore])
    · rw [List.concat_eq_append] at hlast
      rw [hlast] at hp hwalk hlive
      have hqp : q = p := by
        simpa [slotBefore] using hp
      rw [List.append_assoc] at hwalk
      rw [← hqp]
      exact ⟨hlive q (by simp), hwalk.next_of_append_cons_cons⟩

theorem findRecord_spec (h : Linked hashnr blength size data (Finset.range size))
    (hsize : size < 2 ^ 31)
    (hstart : myHashMask (hashnr record) blength size < size) :
    (findRecord data record (size + 1) none
        (myHashMask (hashnr record) blength size) = some none ∧
      record ∉ contentsOf (Finset.range size) data) ∨
    exists gpos x,
      findRecord data record (size + 1) none
        (myHashMask (hashnr record) blength size) = some (some (gpos, x)) ∧
      Found hashnr blength size data record gpos x := by
  generalize hb : myHashMask (hashnr record) blength size = b at hstart ⊢
  have hhome : forall i, (data i).data = record ->
      homeOf hashnr blength size data i = b := by
    intro i hi
    unfold homeOf
    rw [hi, hb]
  rcases exists_walkFrom h hsize hstart with ⟨rest, hfrom⟩
  have hlength := hfrom.length_lt
  by_cases hpresent : exists i, i ∈ b :: rest ∧ (data i).data = record
  · right
    -- the first slot of the walk with the record
    rcases hpresent with ⟨i, hi, hirecord⟩
    rcases List.exists_of_eraseP (p := fun i => decide ((data i).data = record)) hi
      (decide_eq_true hirecord) with ⟨x, before, after, hskip, hx, hcut, _⟩
    have hxrecord : (data x).data = record := of_decide_eq_true hx
    have habsent : forall j, j ∈ before -> (data j).data ≠ record := by
      intro j hj hjrecord
      exact hskip j hj (decide_eq_true hjrecord)
    have hwalk := hfrom.segment
    have hnil := hfrom.nil_not_mem
    have hlengthCut := congrArg List.length hcut
    rw [hcut] at hwalk hnil
    rw [List.length_cons, List.length_append, List.length_cons] at hlengthCut
    exact ⟨slotBefore none before, x,
      findRecord_some hwalk hnil habsent hxrecord (by omega),
      hfrom.found hcut hxrecord (hhome x hxrecord)⟩
  · left
    have habsent : forall i, i ∈ b :: rest -> (data i).data ≠ record := by
      intro i hi hirecord
      exact hpresent ⟨i, hi, hirecord⟩
    constructor
    · apply findRecord_none hfrom.segment (by simp) hfrom.nil_not_mem habsent
      rw [List.length_cons]
      omega
    · intro hmem
      rcases mem_contentsOf.mp hmem with ⟨i, hi, hirecord⟩
      have hwalked := hfrom.bucket i (Finset.mem_range.mp hi) (hhome i hirecord)
      exact habsent i hwalked hirecord

/-!
## Unlinking
-/

/-- What unlinking the record in slot `x` leaves: one slot free, and all other
records on their chains. -/
structure LinkRemoved (hashnr : Ptr -> UInt32) (blength size : Nat) (data : Nat -> HashLink)
    (record : Ptr) (x : Nat) (data' : Nat -> HashLink) (empty : Nat) : Prop where
  empty_lt : empty < size
  linked : Linked hashnr blength size data' ((Finset.range size).erase empty)
  contents : contentsOf (Finset.range size) data =
    record ::ₘ contentsOf ((Finset.range size).erase empty) data'
  stale : empty = x -> (data' x).data = record

theorem removeLink_inner {p x : Nat}
    (h : Linked hashnr blength size data (Finset.range size)) (hsize : size < 2 ^ 31)
    (hfound : Found hashnr blength size data record (some p) x) :
    LinkRemoved hashnr blength size data record x
      (Function.update data p { data p with next := (data x).next }) x := by
  have hnil := noRecord_not_mem hsize
  have hx := Finset.mem_range.mpr hfound.lt
  have hxnil : x ≠ NO_RECORD := by
    rintro rfl
    exact hnil hx
  rcases hfound.pred p rfl with ⟨hp, hlink⟩
  have hcontents : forall i, (Function.update data p
      { data p with next := (data x).next } i).data = (data i).data := by
    intro i
    by_cases hip : i = p
    · rw [hip, Function.update_self]
    · rw [Function.update_of_ne hip]
  refine ⟨hfound.lt, ?_, ?_, ?_⟩
  · refine Chained.unlinkAfter h hnil (Finset.mem_range.mpr hp) hlink hxnil ?_ ?_ ?_
    · simp [nextOf]
    · intro i _hi _hix
      unfold homeOf
      rw [hcontents i]
    · intro i _hi _hix hip
      simp [nextOf, hip]
  · rw [contentsOf_erase hx, hfound.data_eq]
    congr 1
    exact (contentsOf_congr fun i _hi => hcontents i).symm
  · intro _
    exact (hcontents x).trans hfound.data_eq

theorem removeLink_head {x y : Nat}
    (h : Linked hashnr blength size data (Finset.range size)) (hsize : size < 2 ^ 31)
    (hfound : Found hashnr blength size data record none x) (hy : (data x).next = y)
    (hmore : y ≠ NO_RECORD) :
    LinkRemoved hashnr blength size data record x (Function.update data x (data y)) y := by
  have hnil := noRecord_not_mem hsize
  have hx := Finset.mem_range.mpr hfound.lt
  have hxnil : x ≠ NO_RECORD := by
    rintro rfl
    exact hnil hx
  have hhead := hfound.head rfl
  have hnext : nextOf data x = y := hy
  have hsecond := Chained.home_of_next h hx (show nextOf data x ≠ NO_RECORD by
    rw [hnext]
    exact hmore)
  rw [hnext, hhead] at hsecond
  have hxy : x ≠ y := by
    rintro rfl
    rcases Chained.chain_of_head h hx hhead with ⟨tail, hchain⟩
    have hnodup := hchain.nodup hnil
    rcases hchain.split_next (List.mem_cons_self ..) hnext hxnil with
      ⟨before, after, hsplit⟩
    rw [hsplit] at hnodup
    grind
  refine ⟨Finset.mem_range.mp hsecond.left, ?_, ?_, ?_⟩
  · refine Chained.unlinkAfter h hnil hx hnext hmore ?_ ?_ ?_
    · simp [nextOf]
    · intro i _hi _hiy
      by_cases hix : i = x
      · unfold homeOf
        rw [hix, Function.update_self]
        exact hsecond.right.trans hhead.symm
      · unfold homeOf
        rw [Function.update_of_ne hix]
    · intro i _hi _hiy hix
      unfold nextOf
      rw [Function.update_of_ne hix]
  · have hset : insert x (((Finset.range size).erase x).erase y) =
        (Finset.range size).erase y := by
      rw [Finset.erase_right_comm]
      exact Finset.insert_erase (Finset.mem_erase.mpr ⟨hxy, hx⟩)
    have hmove : contentsOf (insert x (((Finset.range size).erase x).erase y))
        (Function.update data x (data y)) =
          contentsOf ((Finset.range size).erase x) data := by
      apply contentsOf_move (Finset.mem_erase.mpr ⟨Ne.symm hxy, hsecond.left⟩)
        (Finset.notMem_erase x _)
      · rw [Function.update_self]
      · intro i hi _hiy
        rw [Function.update_of_ne (Finset.ne_of_mem_erase hi)]
    rw [hset] at hmove
    rw [hmove, contentsOf_erase hx, hfound.data_eq]
  · intro hyx
    exact absurd hyx.symm hxy

theorem removeLink_spec {gpos : Option Nat} {x : Nat}
    (h : Linked hashnr blength size data (Finset.range size)) (hsize : size < 2 ^ 31)
    (hfound : Found hashnr blength size data record gpos x) :
    exists data' empty, removeLink data gpos x = (data', empty) ∧
      LinkRemoved hashnr blength size data record x data' empty := by
  cases gpos with
  | some p => exact ⟨_, _, rfl, removeLink_inner h hsize hfound⟩
  | none =>
      by_cases hlast : (data x).next = NO_RECORD
      · have hremoved : removeLink data none x = (data, x) := by
          simp [removeLink, hlast]
        have hx := Finset.mem_range.mpr hfound.lt
        have hlinked := Chained.unlinkOnly h hx (hfound.head rfl) hlast (noRecord_not_mem hsize)
        refine ⟨_, _, hremoved, hfound.lt, hlinked, ?_, ?_⟩
        · rw [contentsOf_erase hx, hfound.data_eq]
        · intro _
          exact hfound.data_eq
      · have hremoved : removeLink data none x =
            (Function.update data x (data (data x).next), (data x).next) := by
          simp [removeLink, hlast]
        exact ⟨_, _, hremoved, removeLink_head h hsize hfound rfl hlast⟩

end DynHash
end MyLibs
