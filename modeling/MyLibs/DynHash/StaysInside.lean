import MyLibs.DynHash.Confinement
import MyLibs.DynHash.Properties

/-!
# No call leaves the array

Each call of a table in use again, with other links behind the slots it may use.
-/

namespace MyLibs
namespace DynHash

open Foundation

section Links

variable {content : Type _} {hash : MyHash content} {n : Nat} {junk : Nat -> HashLink}

theorem replace_padded {currentRecord : Nat} (newRow : Ptr)
    (hslot : currentRecord ≠ NO_RECORD -> currentRecord < n) :
    myHashReplace (hash.padded n junk) currentRecord newRow =
      (myHashReplace hash currentRecord newRow).padded n junk := by
  have hlinks : (hash.padded n junk).links = Foundation.padded n hash.links junk := rfl
  unfold myHashReplace
  rw [hlinks]
  split
  · rename_i hvalid
    have hinside := hslot (by simpa using hvalid)
    rw [padded_of_lt hinside, update_padded hinside]
    rfl
  · rfl

theorem freeElements_padded (hn : hash.records <= n) :
    (myHashFreeElements (hash.padded n junk)).2 = (myHashFreeElements hash).2 := by
  have hfree : (hash.padded n junk).free = hash.free := rfl
  have hrecords : (hash.padded n junk).records = hash.records := rfl
  unfold myHashFreeElements
  simp only [hfree, hrecords]
  split
  · apply List.map_congr_left
    intro i hi
    have hlink : (hash.padded n junk).links i = hash.links i :=
      padded_of_lt (Nat.lt_of_lt_of_le (List.mem_range.mp hi) hn)
    rw [hlink]
  · rfl

end Links

variable {content : Type _} [Readable content] {hash hash' : MyHash content}
variable {memory now : Ptr -> content} {record : Ptr} {key : Bytes} {length n : Nat}
variable {junk : Nat -> HashLink}

/-!
## Searches
-/

theorem Sound.firstFromHashValue_padded (h : Sound hash memory) (hn : hash.records <= n)
    (hashValue : UInt32) :
    myHashFirstFromHashValue (hash.padded n junk) now hashValue key length =
      myHashFirstFromHashValue hash now hashValue key length := by
  have hrecords : (hash.padded n junk).records = hash.records := rfl
  unfold myHashFirstFromHashValue
  simp only [hrecords]
  split
  · rename_i hsome
    have hpos : 0 < hash.records := Nat.pos_of_ne_zero (by simpa using hsome)
    exact h.closed.firstLoop hn _ true (h.mask_lt hpos hashValue)
  · rfl

theorem Sound.first_padded (h : Sound hash memory) (hn : hash.records <= n) (state : Nat) :
    myHashFirst (hash.padded n junk) now key length state =
      myHashFirst hash now key length state := by
  have hblength : (hash.padded n junk).blength = hash.blength := rfl
  unfold myHashFirst
  rw [hblength]
  split
  · exact h.firstFromHashValue_padded hn _
  · rfl

theorem Sound.first_cursor (h : Sound hash memory) {state : Nat} {found : Ptr × Nat}
    (hfound : myHashFirst hash now key length state = some found) :
    Cursor hash.records found.2 := by
  have hblength : hash.blength ≠ 0 := Nat.ne_of_gt h.size.pos
  unfold myHashFirst at hfound
  rw [if_pos (by simpa using hblength)] at hfound
  unfold myHashFirstFromHashValue at hfound
  split at hfound
  · rename_i hsome
    have hpos : 0 < hash.records := Nat.pos_of_ne_zero (by simpa using hsome)
    exact h.closed.firstLoop_cursor (h.mask_lt hpos _) hfound
  · cases hfound
    exact Or.inl rfl

theorem Sound.next_padded (h : Sound hash memory) (hn : hash.records <= n) {state : Nat}
    (hstate : Cursor hash.records state) :
    myHashNext (hash.padded n junk) now key length state =
      myHashNext hash now key length state := by
  unfold myHashNext
  split
  · rename_i hsome
    have hlt := hstate.resolve_left (by simpa using hsome)
    have hlink : (hash.padded n junk).links state = hash.links state :=
      padded_of_lt (Nat.lt_of_lt_of_le hlt hn)
    rw [hlink]
    exact h.closed.nextLoop hn _ (h.closed state hlt)
  · rfl

theorem Sound.next_cursor (h : Sound hash memory) {state : Nat} {found : Ptr × Nat}
    (hstate : Cursor hash.records state)
    (hfound : myHashNext hash now key length state = some found) :
    Cursor hash.records found.2 := by
  unfold myHashNext at hfound
  split at hfound
  · rename_i hsome
    have hlt := hstate.resolve_left (by simpa using hsome)
    exact h.closed.nextLoop_cursor (h.closed state hlt) hfound
  · cases hfound
    exact hstate

theorem Sound.duplicateKey_padded (h : Sound hash memory) (hn : hash.records <= n) :
    duplicateKey (hash.padded n junk) now record = duplicateKey hash now record := by
  have hunique : (hash.padded n junk).unique = hash.unique := rfl
  have hkey : myHashKey (hash.padded n junk) = myHashKey hash := rfl
  unfold duplicateKey myHashSearch
  simp only [hunique, hkey, h.first_padded hn]

theorem Sound.otherRecord_padded (h : Sound hash memory) (hn : hash.records <= n) (fuel : Nat)
    {cursor : Ptr × Nat} (hcursor : Cursor hash.records cursor.2) :
    otherRecord (hash.padded n junk) now record key length fuel cursor =
      otherRecord hash now record key length fuel cursor := by
  induction fuel generalizing cursor with
  | zero => rfl
  | succ fuel ih =>
      rw [otherRecord, otherRecord, h.next_padded hn hcursor]
      split
      · split
        · rfl
        · apply Option.bind_congr
          intro found hfound
          exact ih (h.next_cursor hcursor hfound)
      · rfl

theorem Sound.duplicateUpdate_padded (h : Sound hash memory) (hn : hash.records <= n) :
    duplicateUpdate (hash.padded n junk) now record = duplicateUpdate hash now record := by
  have hunique : (hash.padded n junk).unique = hash.unique := rfl
  have hkey : myHashKey (hash.padded n junk) = myHashKey hash := rfl
  unfold duplicateUpdate
  simp only [hunique, hkey, h.first_padded hn]
  split
  · apply Option.bind_congr
    intro found hfound
    exact h.otherRecord_padded hn _ (h.first_cursor hfound)
  · rfl

/-!
## Calls that change the links
-/

theorem OneFree.padded {hashnr : Ptr -> UInt32} {blength size empty : Nat}
    {data : Nat -> HashLink} (h : OneFree hashnr blength size data empty) (hn : size <= n) :
    OneFree hashnr blength size (Foundation.padded n data junk) empty := by
  refine ⟨h.bound, h.empty_lt, h.home_lt, h.linked.congr ?_⟩
  intro i hi
  exact padded_of_lt (Nat.lt_of_lt_of_le (Finset.mem_range.mp (Finset.mem_of_mem_erase hi)) hn)

theorem Shrinking.padded {hashnr : Ptr -> UInt32} {oldBlength blength records empty : Nat}
    {data : Nat -> HashLink} (h : Shrinking hashnr oldBlength blength records data empty)
    (hn : records < n) :
    Shrinking hashnr oldBlength blength records (Foundation.padded n data junk) empty := by
  refine ⟨h.bound, h.size, h.mask, h.empty_lt, h.linked.congr ?_⟩
  intro i hi
  exact padded_of_lt (Nat.lt_of_lt_of_le (Finset.mem_range.mp (Finset.mem_of_mem_erase hi)) hn)

theorem OneFree.placeRecord_confined {hashnr : Ptr -> UInt32} {blength records empty : Nat}
    {data : Nat -> HashLink} (h : OneFree hashnr blength (records + 1) data empty)
    (hn : records < n) (record : Ptr) :
    Confined n (fun data => placeRecord hashnr blength records record data empty) data := by
  refine DynHash.placeRecord_confined (Nat.lt_of_lt_of_le (h.home_lt record) hn)
    (Nat.lt_of_lt_of_le h.empty_lt hn) ?_
  intro junk hnone
  rcases placeRecord_spec record (h.padded hn) with ⟨_, hplace, _⟩
  rw [hnone] at hplace
  cases hplace

theorem OneFree.relink_confined {hashnr : Ptr -> UInt32} {blength size empty idx : Nat}
    {orgLink : HashLink} {data : Nat -> HashLink}
    (h : OneFree hashnr blength size data empty)
    (hstale : empty = idx -> (data empty).data = orgLink.data) (hn : size <= n) :
    Confined n (fun data => relink hashnr blength size
      (myHashMask (hashnr orgLink.data) blength size) idx orgLink data empty) data := by
  have hempty : empty < n := Nat.lt_of_lt_of_le h.empty_lt hn
  refine DynHash.relink_confined (Nat.lt_of_lt_of_le (h.home_lt orgLink.data) hn) hempty ?_
  intro junk hnone
  have hstill : empty = idx -> (Foundation.padded n data junk empty).data = orgLink.data := by
    rw [padded_of_lt hempty]
    exact hstale
  rcases relink_spec (h.padded hn) hstill with ⟨_, hrelink, _⟩
  rw [hnone] at hrelink
  cases hrelink

theorem Shrinking.moveLastpos_confined {hashnr : Ptr -> UInt32}
    {oldBlength blength records empty : Nat} {data : Nat -> HashLink}
    (h : Shrinking hashnr oldBlength blength records data empty) (hn : records < n) :
    Confined n (fun data => moveLastpos hashnr oldBlength blength records data empty)
      data := by
  have hempty := h.empty_lt
  have hbound := h.bound
  refine DynHash.moveLastpos_confined hn (by omega) ?_ (by omega) ?_
  · intro hpos hashNr
    have hlt : myHashMask hashNr blength records < records :=
      myHashMask_lt h.size hpos (by omega)
    omega
  · intro junk hnone
    rcases moveLastpos_spec (h.padded hn) with ⟨_, hmove, _⟩
    rw [hnone] at hmove
    cases hmove

theorem Sound.insert_padded (h : Sound hash memory) {block : Option HashLink} {ret : Nat}
    (hinsert : myHashInsert hash memory record block = some (ret, hash'))
    (hbound : hash'.records < 2 ^ 31) (hn : hash.records <= n) (hn' : hash'.records <= n) :
    myHashInsert (hash.padded n junk) memory record block = some (ret, hash'.padded n junk) := by
  unfold myHashInsert at hinsert ⊢
  rw [h.duplicateKey_padded hn]
  rcases Option.bind_eq_some_iff.mp hinsert with ⟨duplicate, hduplicate, hinsert⟩
  rw [hduplicate, Option.bind_some]
  cases duplicate with
  | true =>
      cases hinsert
      rfl
  | false =>
      cases block with
      | none =>
          cases hinsert
          rfl
      | some garbage =>
          simp only [myArrayAlloc, Option.map_some, h.elements, Bool.false_eq_true,
            if_false] at hinsert
          rcases Option.bind_eq_some_iff.mp hinsert with ⟨split, hsplit, hinsert⟩
          rcases Option.map_eq_some_iff.mp hinsert with ⟨data, hplace, hinsert⟩
          cases hinsert
          have hroom : hash.records + 1 < 2 ^ 31 := hbound
          have hlast : hash.records < n := hn'
          have hkept : forall i, i < hash.records ->
              Function.update hash.links hash.records garbage i = hash.links i :=
            fun i hi => Function.update_of_ne (Nat.ne_of_lt hi) _ _
          have hclosed : Closed hash.records
              (Function.update hash.links hash.records garbage) := by
            intro i hi
            rw [hkept i hi]
            exact h.closed i hi
          have hstart := h.linked.congr fun i hi => hkept i (Finset.mem_range.mp hi)
          rcases splitBucket_spec h.size hroom hstart with ⟨data₁, empty, hsplit', hfree, _⟩
          have hsplit'' : split = (data₁, empty) := Option.some.inj (hsplit.symm.trans hsplit')
          subst hsplit''
          have hplaced := hfree.placeRecord_confined hlast record junk
          simp only at hplace hplaced
          rw [hplace, Option.map_some] at hplaced
          have hbucket : splitBucket (recHashnr hash memory) hash.blength hash.records
              (Function.update (hash.padded n junk).links hash.records garbage) hash.records =
                some (Foundation.padded n data₁ junk, empty) := by
            rw [MyHash.padded, update_padded hlast,
              splitBucket_padded hclosed h.size (by omega) hlast, hsplit']
            rfl
          have helements : (hash.padded n junk).array.elements = hash.records := h.elements
          simp only [myArrayAlloc, Option.map_some, helements, Bool.false_eq_true, if_false]
          show ((splitBucket (recHashnr hash memory) hash.blength hash.records
            (Function.update (hash.padded n junk).links hash.records garbage)
              hash.records).bind _) = _
          rw [hbucket, Option.bind_some]
          show (placeRecord (recHashnr hash memory) hash.blength hash.records record
            (Foundation.padded n data₁ junk) empty).map _ = _
          rw [hplaced]
          rfl

theorem Sound.delete_padded (h : Sound hash memory) {ret : Nat} {freed : List Ptr}
    (hdelete : myHashDelete hash memory record = some (ret, hash', freed))
    (hn : hash.records <= n) :
    myHashDelete (hash.padded n junk) memory record = some (ret, hash'.padded n junk, freed) := by
  have hbound := h.bound
  have hrecords : (hash.padded n junk).records = hash.records := rfl
  have hlinks : (hash.padded n junk).links = Foundation.padded n hash.links junk := rfl
  have hhashnr : recHashnr (hash.padded n junk) memory = recHashnr hash memory := rfl
  have hblength : (hash.padded n junk).blength = hash.blength := rfl
  unfold myHashDelete deleteBucket at hdelete ⊢
  simp only [hrecords, hlinks, hhashnr, hblength]
  by_cases hempty : hash.records = 0
  · rw [if_pos hempty] at hdelete ⊢
    cases hdelete
    rfl
  · rw [if_neg hempty] at hdelete ⊢
    have hpos := Nat.pos_of_ne_zero hempty
    have hwrap : uint hash.blength = hash.blength := uint_of_lt (h.size.blength_lt hbound)
    simp only [hwrap] at hdelete ⊢
    rw [h.closed.findRecord hn (h.mask_lt hpos _)]
    rcases findRecord_spec h.linked hbound (h.mask_lt hpos (recHashnr hash memory record)) with
      ⟨hsearch, _⟩ | ⟨gpos, x, hsearch, hfound⟩
    · rw [hsearch, Option.bind_some] at hdelete ⊢
      cases hdelete
      rfl
    · rw [hsearch, Option.bind_some] at hdelete ⊢
      rcases removeLink_spec h.linked hbound hfound with
        ⟨data₁, empty, hremoved, hleft⟩
      rcases Nat.exists_eq_succ_of_ne_zero hempty with ⟨m, hm⟩
      have hpred : hash.records - 1 = m := by omega
      have hempty32 : empty < 2 ^ 32 := Nat.lt_trans hleft.empty_lt (by omega)
      have hmove := (hleft.shrinking h hm).moveLastpos_confined (by omega : m < n) junk
      have hremove : removeLink (Foundation.padded n hash.links junk) gpos x = _ :=
        h.closed.removeLink hn hfound.lt fun g hg => (hfound.pred g hg).left
      simp only [hremoved, hpred, uint_of_lt hempty32] at hdelete hremove ⊢
      rcases Option.map_eq_some_iff.mp hdelete with ⟨data₂, hdata₂, hresult⟩
      cases hresult
      simp only at hmove hdata₂
      rw [hdata₂, Option.map_some] at hmove
      rw [hremove]
      simp only [uint_of_lt hempty32]
      rw [hmove]
      rfl

theorem Sound.update_padded (h : Sound hash memory) (hrecord : record ∈ hash.contents)
    {newContent : content} (hupdates : UpdatesOneRecord hash memory record newContent)
    {ret : Nat}
    (hupdate : myHashUpdate hash (Function.update memory record newContent) record
      (myHashKey hash (memory record) false).1 (myHashKey hash (memory record) false).2 =
        some (ret, hash'))
    (hn : hash.records <= n) :
    myHashUpdate (hash.padded n junk) (Function.update memory record newContent) record
      (myHashKey hash (memory record) false).1 (myHashKey hash (memory record) false).2 =
        some (ret, hash'.padded n junk) := by
  have hbound := h.bound
  have hpos := records_pos hrecord
  have hmoved := hupdates.left.count_eq_one
  generalize hnow : Function.update memory record newContent = now at hupdate hmoved ⊢
  have hrecords : (hash.padded n junk).records = hash.records := rfl
  have hlinks : (hash.padded n junk).links = Foundation.padded n hash.links junk := rfl
  have hhashnr : recHashnr (hash.padded n junk) now = recHashnr hash now := rfl
  have hcalc : hashCalc (hash.padded n junk) = hashCalc hash := rfl
  have hlength : (hash.padded n junk).keyLength = hash.keyLength := rfl
  have hblength : (hash.padded n junk).blength = hash.blength := rfl
  unfold myHashUpdate updateBucket at hupdate ⊢
  rw [h.duplicateUpdate_padded hn]
  rcases Option.bind_eq_some_iff.mp hupdate with ⟨duplicate, hduplicate, hupdate⟩
  rw [hduplicate, Option.bind_some]
  cases duplicate with
  | true =>
      cases hupdate
      rfl
  | false =>
      have hwrap : uint hash.blength = hash.blength := uint_of_lt (h.size.blength_lt hbound)
      have hwrapRecords : uint hash.records = hash.records := uint_of_lt (by omega)
      simp only [hrecords, hlinks, hhashnr, hcalc, hlength, hblength, Bool.false_eq_true,
        if_false, hwrap, hwrapRecords, hashCalc_oldKey hupdates.right] at hupdate ⊢
      by_cases hsame : myHashMask (recHashnr hash memory record) hash.blength hash.records =
          myHashMask (recHashnr hash now record) hash.blength hash.records
      · rw [if_pos hsame] at hupdate ⊢
        cases hupdate
        rfl
      · rw [if_neg hsame] at hupdate ⊢
        have hother : forall other, other ≠ record ->
            recHashnr hash now other = recHashnr hash memory other := by
          intro other hne
          rw [← hnow]
          exact recHashnr_update hne
        rw [h.closed.findRecord hn (h.mask_lt hpos _)]
        rcases findRecord_spec h.linked hbound
          (h.mask_lt hpos (recHashnr hash memory record)) with
          ⟨hsearch, _⟩ | ⟨gpos, x, hsearch, hfound⟩
        · rw [hsearch, Option.bind_some] at hupdate ⊢
          cases hupdate
          rfl
        · rw [hsearch, Option.bind_some] at hupdate ⊢
          rcases removeLink_spec h.linked hbound hfound with
            ⟨data₁, empty, hremoved, hleft⟩
          have hfree := hleft.oneFree h hpos hother (hmoved hsame)
          have hrelink := hfree.relink_confined (hleft.same_data hfound) hn junk
          have hremove : removeLink (Foundation.padded n hash.links junk) gpos x = _ :=
            h.closed.removeLink hn hfound.lt fun g hg => (hfound.pred g hg).left
          have hlink : Foundation.padded n hash.links junk x = hash.links x :=
            padded_of_lt (Nat.lt_of_lt_of_le hfound.lt hn)
          simp only [hremoved] at hupdate hremove ⊢
          rcases Option.map_eq_some_iff.mp hupdate with ⟨data₂, hdata₂, hresult⟩
          cases hresult
          simp only [hfound.data_eq] at hrelink
          rw [hdata₂, Option.map_some] at hrelink
          rw [hremove, hlink]
          simp only
          rw [hrelink]
          rfl

/-!
## All calls
-/

def Table.padded (t : Table content) (n : Nat) (junk : Nat -> HashLink) : Table content :=
  { t with hash := t.hash.padded n junk }

theorem Sound.apply_padded {t t' : Table content} (h : Sound t.hash t.memory)
    {op : Op content} {ret : Nat} {freed : List Ptr}
    (hallowed : Op.Allowed UpdatesOneRecord t op)
    (happly : op.apply t = some (ret, t', freed)) (hbound : t'.hash.records < 2 ^ 31)
    (hn : t.hash.records <= n) (hn' : t'.hash.records <= n) :
    op.apply (t.padded n junk) = some (ret, t'.padded n junk, freed) := by
  have hmemory : (t.padded n junk).memory = t.memory := rfl
  have hhash : (t.padded n junk).hash = t.hash.padded n junk := rfl
  have hkey : myHashKey (t.hash.padded n junk) = myHashKey t.hash := rfl
  cases op with
  | insert record block =>
      rcases Option.map_eq_some_iff.mp happly with ⟨⟨ret', hash'⟩, hinsert, hresult⟩
      cases hresult
      rw [Op.apply, hmemory, hhash, h.insert_padded hinsert hbound hn hn']
      rfl
  | delete record =>
      rcases Option.map_eq_some_iff.mp happly with ⟨⟨ret', hash', freed'⟩, hdelete, hresult⟩
      cases hresult
      rw [Op.apply, hmemory, hhash, h.delete_padded hdelete hn]
      rfl
  | update record newContent =>
      rcases Option.map_eq_some_iff.mp happly with ⟨⟨ret', hash'⟩, hupdate, hresult⟩
      cases hresult
      simp only [Op.apply, hmemory, hhash, hkey,
        h.update_padded hallowed.left hallowed.right hupdate hn]
      rfl
  | replace currentRecord newRow =>
      cases happly
      rw [Op.apply, hhash, replace_padded newRow fun hvalid =>
        Nat.lt_of_lt_of_le (hallowed hvalid).left hn]
      rfl
  | reset =>
      cases happly
      rw [Op.apply, hhash, myHashReset, myHashReset, freeElements_padded hn]
      rfl
  | write memory =>
      cases happly
      rfl

/-- No call and no search goes behind the slots of the array that are in use: with
anything else there each of them does the same, and what is there stays. -/
theorem dynHash_stays_inside {t : Table content} (h : TableReachable UpdatesOneRecord t)
    (hn : t.hash.array.elements <= n) (junk : Nat -> HashLink) :
    (forall (op : Op content) (ret : Nat) (t' : Table content) (freed : List Ptr),
      Op.Allowed UpdatesOneRecord t op -> op.apply t = some (ret, t', freed) ->
      t'.hash.records < 2 ^ 31 -> t'.hash.array.elements <= n ->
        op.apply (t.padded n junk) = some (ret, t'.padded n junk, freed) ∧
          forall i, n <= i -> t'.hash.links i = t.hash.links i) ∧
    (forall (key : Bytes) (length state : Nat),
      myHashFirst (t.hash.padded n junk) t.memory key length state =
          myHashFirst t.hash t.memory key length state ∧
        (state = NO_RECORD ∨ state < t.hash.records ->
          myHashNext (t.hash.padded n junk) t.memory key length state =
            myHashNext t.hash t.memory key length state)) ∧
    forall idx, myHashElement (t.hash.padded n junk) idx = myHashElement t.hash idx := by
  have hsound := sound_reachable h
  have hrecords : t.hash.records <= n := hsound.elements ▸ hn
  refine ⟨?_, ?_, ?_⟩
  · intro op ret t' freed hallowed happly hbound hn'
    have hsound' := sound_step hsound ⟨op, ret, freed, hallowed, happly, hbound⟩
    have hrecords' : t'.hash.records <= n := hsound'.elements ▸ hn'
    refine ⟨hsound.apply_padded hallowed happly hbound hrecords hrecords', ?_⟩
    intro i hi
    -- with the links that are there as the other ones
    have hsame : t.padded n t.hash.links = t := by
      rw [Table.padded, MyHash.padded, padded_self]
    have hown : op.apply (t.padded n t.hash.links) =
        some (ret, t'.padded n t.hash.links, freed) :=
      hsound.apply_padded hallowed happly hbound hrecords hrecords'
    rw [hsame, happly] at hown
    rw [Option.some.injEq, Prod.mk.injEq, Prod.mk.injEq] at hown
    have hlinks : padded n t'.hash.links t.hash.links = t'.hash.links :=
      congrArg (fun u => u.hash.links) hown.right.left.symm
    exact eq_of_padded_eq hlinks hi
  · intro key length state
    exact ⟨hsound.first_padded hrecords state, fun hstate => hsound.next_padded hrecords hstate⟩
  · intro idx
    have hcount : (t.hash.padded n junk).records = t.hash.records := rfl
    unfold myHashElement
    rw [hcount]
    split
    · rename_i hidx
      have hlink : (t.hash.padded n junk).links idx = t.hash.links idx :=
        padded_of_lt (Nat.lt_of_lt_of_le hidx hrecords)
      rw [hlink]
    · rfl

def selfLinks (i : Nat) : HashLink :=
  { next := i, data := NULL }

theorem dynHash_stays_inside_secondSlot :
    exists (ret : Nat) (t' : Table Bytes) (freed : List Ptr),
      (Op.insert 16 freshSlot).apply ((shortKeys.after (.insert 8 freshSlot)).padded 2 selfLinks) =
          some (ret, t'.padded 2 selfLinks, freed) ∧
        t'.hash.links 2 = (shortKeys.after (.insert 8 freshSlot)).hash.links 2 := by
  have hone : TableReachable UpdatesOneRecord (shortKeys.after (.insert 8 freshSlot)) :=
    shortKeys_reachable.after _ trivial (by decide) (by decide)
  have hends : ((Op.insert 16 freshSlot).apply
      (shortKeys.after (.insert 8 freshSlot))).isSome = true := by decide
  rcases Option.isSome_iff_exists.mp hends with ⟨⟨ret, t', freed⟩, happly⟩
  have hafter : (shortKeys.after (.insert 8 freshSlot)).after (.insert 16 freshSlot) = t' := by
    rw [Table.after, happly]
  have hrecords : t'.hash.records < 2 ^ 31 := hafter ▸ by decide
  have helements : t'.hash.array.elements <= 2 := hafter ▸ by decide
  have hslots : (shortKeys.after (.insert 8 freshSlot)).hash.array.elements <= 2 := by
    decide
  rcases dynHash_stays_inside hone hslots selfLinks with ⟨hcalls, _⟩
  rcases hcalls (.insert 16 freshSlot) ret t' freed trivial happly hrecords helements with
    ⟨hpadded, hframe⟩
  exact ⟨ret, t', freed, hpadded, hframe 2 (Nat.le_refl 2)⟩

end DynHash
end MyLibs
