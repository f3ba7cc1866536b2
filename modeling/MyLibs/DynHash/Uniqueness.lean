import MyLibs.DynHash.Properties

/-!
# Tables with unique keys

With `my_hash_UNIQUE`, `my_hash_insert` and `my_hash_update` refuse a key that
another record has. The test in `my_hash_update` runs on a table whose changed
record is still on the chain of its old key.
-/

namespace MyLibs
namespace DynHash

open Foundation

variable {content : Type _} [Readable content]
variable {hash hash' : MyHash content} {memory : Ptr -> content}
variable {record other : Ptr}

/-!
## Equal keys
-/

def EqualKeys (hash : MyHash content) (memory : Ptr -> content)
    (record other : Ptr) : Prop :=
  (myHashKey hash (memory record) true).2 = (myHashKey hash (memory other) true).2 ∧
    hash.strnncoll (myHashKey hash (memory record) true).1
      (myHashKey hash (memory record) true).2 (myHashKey hash (memory other) true).1
      (myHashKey hash (memory other) true).2 = 0

def HasLength (hash : MyHash content) (record : content) : Prop :=
  forall first, (myHashKey hash record first).2 ≠ 0

instance {record : content} : Decidable (HasLength hash record) :=
  inferInstanceAs (Decidable (forall first, (myHashKey hash record first).2 ≠ 0))

/-- A table for unique keys: keys are compared by an equality, and equal keys have
equal hash values. -/
structure UniqueTable (hash : MyHash content) : Prop where
  unique : hash.unique = true
  hashes : HashesAgree hash
  reflexive : forall key length, hash.strnncoll key length key length = 0
  symmetric : forall key key' length, hash.strnncoll key length key' length = 0 ->
    hash.strnncoll key' length key length = 0

def KeyTaken (hash : MyHash content) (memory : Ptr -> content) (record : Ptr) : Prop :=
  exists other, other ∈ hash.contents ∧ other ≠ record ∧
    EqualKeys hash memory other record

theorem hashcmp_eq_false_iff (hlength : HasLength hash (memory record))
    (pos : HashLink) :
    hashcmp hash memory pos (myHashKey hash (memory record) true).1
        (myHashKey hash (memory record) true).2 = false <->
      EqualKeys hash memory pos.data record := by
  have hlen := hlength true
  unfold hashcmp EqualKeys
  generalize myHashKey hash (memory record) true = key at hlen ⊢
  generalize myHashKey hash (memory pos.data) true = recKey
  simp only [Bool.or_eq_false_iff, Bool.and_eq_false_iff, bne_eq_false_iff_eq]
  constructor
  · intro h
    have hsame : key.2 = recKey.2 := h.left.resolve_left hlen
    refine ⟨hsame.symm, ?_⟩
    rw [hsame]
    exact h.right
  · intro h
    refine ⟨Or.inr h.left.symm, ?_⟩
    rw [← h.left] at h
    exact h.right

theorem hasKey_iff (hlength : HasLength hash (memory record)) {i : Nat} :
    hash.hasKey memory (myHashKey hash (memory record) true).1
        (myHashKey hash (memory record) true).2 i = true <->
      EqualKeys hash memory (hash.links i).data record := by
  unfold MyHash.hasKey
  rw [Bool.not_eq_true', hashcmp_eq_false_iff hlength]

namespace UniqueTable

theorem equalKeys_refl (h : UniqueTable hash) : EqualKeys hash memory record record :=
  ⟨rfl, h.reflexive _ _⟩

theorem equalKeys_symm (h : UniqueTable hash) (heq : EqualKeys hash memory record other) :
    EqualKeys hash memory other record := by
  rcases heq with ⟨hlength, hkey⟩
  refine ⟨hlength.symm, ?_⟩
  rw [← hlength]
  rw [← hlength] at hkey
  exact h.symmetric _ _ _ hkey

theorem recHashnr_eq (h : UniqueTable hash) (hlength : HasLength hash (memory record))
    (heq : EqualKeys hash memory other record) :
    recHashnr hash memory other =
      hashCalc hash (myHashKey hash (memory record) true).1
        (myHashKey hash (memory record) true).2 := by
  have hcmp := (hashcmp_eq_false_iff hlength
    { next := NO_RECORD, data := other }).mpr heq
  exact h.hashes memory _ _ _ (hlength true) hcmp

theorem onlyLinks (h : UniqueTable hash) (honly : OnlyLinks hash hash') :
    UniqueTable hash' := by
  have hunique := honly.unique_eq
  rcases honly with ⟨array, records, blength, rfl⟩
  exact ⟨hunique.trans h.unique, h.hashes, h.reflexive, h.symmetric⟩

end UniqueTable

theorem OnlyLinks.myHashKey_eq (h : OnlyLinks hash hash') {c : content} {first : Bool} :
    myHashKey hash' c first = myHashKey hash c first := by
  rcases h with ⟨array, records, blength, rfl⟩
  rfl

theorem OnlyLinks.equalKeys_iff (h : OnlyLinks hash hash') :
    EqualKeys hash' memory record other <-> EqualKeys hash memory record other := by
  rcases h with ⟨array, records, blength, rfl⟩
  exact Iff.rfl

theorem equalKeys_congr {memory' : Ptr -> content}
    (hrecord : myHashKey hash (memory' record) true = myHashKey hash (memory record) true)
    (hother : myHashKey hash (memory' other) true = myHashKey hash (memory other) true) :
    EqualKeys hash memory' record other <-> EqualKeys hash memory record other := by
  unfold EqualKeys
  rw [hrecord, hother]

/-!
## The two tests
-/

theorem Sound.not_taken_of_insert (h : Sound hash memory) (htable : UniqueTable hash)
    (hlength : HasLength hash (memory record))
    (hnull : forall other, other ∈ hash.contents -> other ≠ NULL)
    (hduplicate : duplicateKey hash memory record = some false) :
    forall other, other ∈ hash.contents -> ¬ EqualKeys hash memory other record := by
  intro other hother heq
  rcases h.search_spec htable.hashes (myHashKey hash (memory record) true).1
    (hlength true) with ⟨found, hsearch, _, hfound⟩
  have hmiss : found = NULL := by
    unfold duplicateKey at hduplicate
    simpa [htable.unique, hsearch] using hduplicate
  rcases hfound with ⟨i, hi, _, hdata⟩ | ⟨hnone, _⟩
  · rw [hmiss] at hdata
    exact hnull _ (mem_contents.mpr ⟨i, hi, rfl⟩) hdata
  · rcases mem_contents.mp hother with ⟨i, hi, hdata⟩
    rw [← hdata] at heq
    have hkey := (hasKey_iff hlength).mpr heq
    rw [hnone i hi] at hkey
    exact absurd hkey (by simp)

/-- The test of `my_hash_update`, on a table whose changed record may be on a wrong
chain, finds a record with the new key if and only if there is another one. -/
theorem Sound.duplicateUpdate_iff (h : Sound hash memory) (htable : UniqueTable hash)
    (record : Ptr) {newContent : content} (hlength : HasLength hash newContent)
    (hnull : forall other, other ∈ hash.contents -> other ≠ NULL) :
    duplicateUpdate hash (Function.update memory record newContent) record = some true <->
      KeyTaken hash (Function.update memory record newContent) record := by
  have hother : forall other, other ≠ record ->
      recHashnr hash (Function.update memory record newContent) other =
        recHashnr hash memory other :=
    fun other hne => recHashnr_update hne
  have hlength' : HasLength hash (Function.update memory record newContent record) := by
    rw [Function.update_self]
    exact hlength
  generalize Function.update memory record newContent = now at hother hlength' ⊢
  have hown := htable.recHashnr_eq hlength' htable.equalKeys_refl
  have hvalue : hashCalc hash (myHashKey hash (now record) true).1
      (if (myHashKey hash (now record) true).2 != 0
        then (myHashKey hash (now record) true).2 else hash.keyLength) =
      recHashnr hash now record := by
    rw [if_pos (by simpa using hlength' true), hown]
  rcases h.duplicateUpdate_path now record htable.unique hvalue with
    ⟨path, hlive, hwhole, hresult⟩
  -- no record on the path ends the loop early
  have hsome : forall found, found ∈ (path.filter (hash.hasKey now
      (myHashKey hash (now record) true).1 (myHashKey hash (now record) true).2)).map
        (fun i => (hash.links i).data) -> (found != NULL) = true := by
    intro found hfound
    rcases List.mem_map.mp hfound with ⟨i, hi, hdata⟩
    have hmem := mem_contents.mpr ⟨i, hlive i (List.mem_filter.mp hi).left, hdata⟩
    simpa using hnull found hmem
  rw [hresult, Option.some_inj, List.takeWhile_append_of_pos hsome]
  simp only [List.takeWhile_cons, bne_self_eq_false, Bool.false_eq_true, if_false,
    List.append_nil, List.any_map, List.any_eq_true, List.mem_filter, Function.comp_apply,
    bne_iff_ne]
  constructor
  · intro hany
    rcases hany with ⟨i, ⟨hi, hkey⟩, hne⟩
    exact ⟨_, mem_contents.mpr ⟨i, hlive i hi, rfl⟩, hne, (hasKey_iff hlength').mp hkey⟩
  · intro htaken
    rcases htaken with ⟨other, hmem, hne, heq⟩
    rcases mem_contents.mp hmem with ⟨i, hi, hdata⟩
    have hsame : recHashnr hash now other = recHashnr hash now record :=
      (htable.recHashnr_eq hlength' heq).trans hown.symm
    -- the other record has not moved, so its bucket has a chain
    have hhome : homeOf (recHashnr hash memory) hash.blength hash.records hash.links i =
        myHashMask (recHashnr hash now record) hash.blength hash.records := by
      unfold homeOf
      rw [hdata, ← hother other hne, hsame]
    have hhead := (Chained.home_mem h.linked (Finset.mem_range.mpr hi)).right
    rw [hhome] at hhead
    refine ⟨i, ⟨hwhole ?_ i hi hhome, ?_⟩, ?_⟩
    · -- and whatever record is at its head is at home there, the changed one as well
      generalize hidx : myHashMask (recHashnr hash now record) hash.blength hash.records =
        idx at hhead ⊢
      by_cases hfirst : (hash.links idx).data = record
      · unfold homeOf
        rw [hfirst, hidx]
      · unfold homeOf at hhead ⊢
        rw [hother _ hfirst]
        exact hhead
    · rw [← hdata] at heq
      exact (hasKey_iff hlength').mpr heq
    · rw [hdata]
      exact hne

/-!
## Runs
-/

/-- What the callers of a table for unique keys keep to: they insert records, not
null pointers, with keys that are not empty, and update records of the table. -/
def Op.Keyed (t : Table content) : Op content -> Prop
  | .insert record _ => record ≠ NULL ∧ HasLength t.hash (t.memory record)
  | .delete _ => True
  | .update record newContent => record ∈ t.hash.contents ∧ HasLength t.hash newContent
  | .replace _ _ => False
  | .reset => False
  | .write memory => forall record, record ∈ t.hash.contents -> forall first,
      myHashKey t.hash (memory record) first =
        myHashKey t.hash (t.memory record) first

/-- One insertion, deletion or update, which leaves fewer than 2^31 records, or a
write to memory. -/
def UniqueStep (t t' : Table content) : Prop :=
  exists op ret freed, Op.Keyed t op ∧ op.apply t = some (ret, t', freed) ∧
    t'.hash.records < 2 ^ 31

def UniqueReachable (t : Table content) : Prop :=
  exists start : Table content, start.Initial ∧ UniqueTable start.hash ∧
    Relation.ReflTransGen UniqueStep start t

structure Distinct (t : Table content) : Prop where
  sound : Sound t.hash t.memory
  table : UniqueTable t.hash
  notNull : forall record, record ∈ t.hash.contents -> record ≠ NULL
  hasLength : forall record, record ∈ t.hash.contents ->
    HasLength t.hash (t.memory record)
  once : t.hash.contents.Nodup
  keys : forall record, record ∈ t.hash.contents ->
    forall other, other ∈ t.hash.contents -> record ≠ other ->
      ¬ EqualKeys t.hash t.memory record other

namespace Distinct

variable {t t' : Table content}

theorem initial (h : t.Initial) (htable : UniqueTable t.hash) : Distinct t := by
  have hempty : t.hash.contents = 0 := by
    unfold MyHash.contents contentsOf
    rw [h.left]
    rfl
  refine ⟨h.sound, htable, ?_, ?_, ?_, ?_⟩
  · simp [hempty]
  · simp [hempty]
  · simp [hempty]
  · simp [hempty]

theorem of_subset (h : Distinct t) {t' : Table content}
    (hsound : Sound t'.hash t'.memory) (honly : OnlyLinks t.hash t'.hash)
    (hcontents : t'.hash.contents <= t.hash.contents)
    (hkey : forall record, record ∈ t'.hash.contents -> forall first,
      myHashKey t.hash (t'.memory record) first =
        myHashKey t.hash (t.memory record) first) : Distinct t' := by
  have hmem : forall record, record ∈ t'.hash.contents -> record ∈ t.hash.contents :=
    fun record hrecord => Multiset.mem_of_le hcontents hrecord
  refine ⟨hsound, h.table.onlyLinks honly, ?_, ?_, ?_, ?_⟩
  · intro record hrecord
    exact h.notNull record (hmem record hrecord)
  · intro record hrecord first
    rw [honly.myHashKey_eq, hkey record hrecord first]
    exact h.hasLength record (hmem record hrecord) first
  · exact Multiset.nodup_of_le hcontents h.once
  · intro record hrecord other hother hne
    rw [honly.equalKeys_iff,
      equalKeys_congr (hkey record hrecord true) (hkey other hother true)]
    exact h.keys record (hmem record hrecord) other (hmem other hother) hne

theorem updatesOneRecord (h : Distinct t) {record : Ptr}
    (hrecord : record ∈ t.hash.contents) (newContent : content) :
    UpdatesOneRecord t.hash t.memory record newContent :=
  ⟨Or.inl (Multiset.count_eq_one_of_mem h.once hrecord),
    Or.inl (h.hasLength record hrecord false)⟩

theorem insert (h : Distinct t) {record : Ptr} {block : Option HashLink} {ret : Nat}
    {freed : List Ptr} (hkeyed : Op.Keyed t (.insert record block))
    (hstep : (Op.insert record block).apply t = some (ret, t', freed))
    (hbound : t'.hash.records < 2 ^ 31) : Distinct t' := by
  have hsound := sound_insert h.sound hstep hbound
  have honly := apply_onlyLinks hstep
  rcases Option.map_eq_some_iff.mp hstep with ⟨⟨ret', hash'⟩, hinsert, hresult⟩
  cases hresult
  rcases myHashInsert_records hinsert with ⟨_, hsame⟩ | hmore
  · rw [hsame]
    exact h
  · have hroom : t.hash.records + 1 < 2 ^ 31 := by
      rw [← hmore]
      exact hbound
    rcases myHashInsert_spec h.sound record block hroom with
      ⟨hrefused, _⟩ | ⟨hash'', haccepted, _, hcontents, hduplicate⟩
    · rw [hrefused] at hinsert
      cases hinsert
      exact h
    · rw [haccepted] at hinsert
      cases hinsert
      have hnew := h.sound.not_taken_of_insert h.table hkeyed.right h.notNull hduplicate
      have habsent : record ∉ t.hash.contents :=
        fun hmem => hnew record hmem h.table.equalKeys_refl
      refine ⟨hsound, h.table.onlyLinks honly, ?_, ?_, ?_, ?_⟩
      · intro other hother
        rw [hcontents, Multiset.mem_cons] at hother
        rcases hother with rfl | hother
        · exact hkeyed.left
        · exact h.notNull other hother
      · intro other hother first
        rw [hcontents, Multiset.mem_cons] at hother
        rw [honly.myHashKey_eq]
        rcases hother with rfl | hother
        · exact hkeyed.right first
        · exact h.hasLength other hother first
      · rw [hcontents]
        exact Multiset.nodup_cons.mpr ⟨habsent, h.once⟩
      · intro first hfirst second hsecond hne
        rw [hcontents, Multiset.mem_cons] at hfirst hsecond
        rw [honly.equalKeys_iff]
        rcases hfirst with rfl | hfirst
        · intro heq
          exact hnew second (hsecond.resolve_left (Ne.symm hne)) (h.table.equalKeys_symm heq)
        · rcases hsecond with rfl | hsecond
          · exact hnew first hfirst
          · exact h.keys first hfirst second hsecond hne

theorem delete (h : Distinct t) {record : Ptr} {ret : Nat} {freed : List Ptr}
    (hstep : (Op.delete record).apply t = some (ret, t', freed)) : Distinct t' := by
  have hsound := sound_delete h.sound hstep
  have honly := apply_onlyLinks hstep
  rcases Option.map_eq_some_iff.mp hstep with ⟨⟨ret', hash', freed'⟩, hdelete, hresult⟩
  cases hresult
  refine h.of_subset hsound honly ?_ (fun _ _ _ => rfl)
  rcases myHashDelete_spec h.sound record with
    ⟨habsent, _⟩ | ⟨hash'', hremoved, _, hcontents⟩
  · rw [habsent] at hdelete
    cases hdelete
    exact le_refl _
  · rw [hremoved] at hdelete
    cases hdelete
    rw [hcontents]
    exact Multiset.le_cons_self _ _

theorem update (h : Distinct t) {record : Ptr} {newContent : content} {ret : Nat}
    {freed : List Ptr} (hkeyed : Op.Keyed t (.update record newContent))
    (hstep : (Op.update record newContent).apply t = some (ret, t', freed)) :
    Distinct t' := by
  have hupdates := h.updatesOneRecord hkeyed.left newContent
  have honly := apply_onlyLinks hstep
  rcases Option.map_eq_some_iff.mp hstep with ⟨⟨ret', hash'⟩, hupdate, hresult⟩
  cases hresult
  rcases myHashUpdate_spec h.sound hkeyed.left hupdates with
    ⟨_, hrefused⟩ | ⟨hduplicate, hash'', haccepted, hsound, hcontents, _⟩
  · -- the old key comes back
    rw [hrefused] at hupdate
    cases hupdate
    exact h
  · rw [haccepted] at hupdate
    cases hupdate
    have hfree : ¬ KeyTaken t.hash (Function.update t.memory record newContent) record := by
      rw [← h.sound.duplicateUpdate_iff h.table record hkeyed.right h.notNull, hduplicate]
      simp
    have hkept : forall other, other ≠ record -> forall first,
        myHashKey t.hash (Function.update t.memory record newContent other) first =
          myHashKey t.hash (t.memory other) first := by
      intro other hne first
      rw [Function.update_of_ne hne]
    refine ⟨hsound, h.table.onlyLinks honly, ?_, ?_, ?_, ?_⟩
    · rw [hcontents]
      exact h.notNull
    · rw [hcontents]
      intro other hother first
      show (myHashKey hash' (Function.update t.memory record newContent other) first).2 ≠ 0
      rw [honly.myHashKey_eq]
      by_cases hsame : other = record
      · rw [hsame, Function.update_self]
        exact hkeyed.right first
      · rw [hkept other hsame first]
        exact h.hasLength other hother first
    · rw [hcontents]
      exact h.once
    · rw [hcontents]
      intro first hfirst second hsecond hne
      rw [honly.equalKeys_iff]
      show ¬ EqualKeys t.hash (Function.update t.memory record newContent) first second
      intro heq
      by_cases hfirstSame : first = record
      · subst hfirstSame
        exact hfree ⟨second, hsecond, Ne.symm hne, h.table.equalKeys_symm heq⟩
      · by_cases hsecondSame : second = record
        · subst hsecondSame
          exact hfree ⟨first, hfirst, hfirstSame, heq⟩
        · rw [equalKeys_congr (hkept first hfirstSame true)
            (hkept second hsecondSame true)] at heq
          exact h.keys first hfirst second hsecond hne heq

theorem write (h : Distinct t) {memory : Ptr -> content}
    (hkeyed : Op.Keyed t (.write memory)) : Distinct { t with memory := memory } :=
  h.of_subset (sound_write (t := t) h.sound hkeyed) (OnlyLinks.refl _) (le_refl _) hkeyed

theorem step (h : Distinct t) (hstep : UniqueStep t t') : Distinct t' := by
  rcases hstep with ⟨op, ret, freed, hkeyed, happly, hbound⟩
  cases op with
  | insert record block => exact h.insert hkeyed happly hbound
  | delete record => exact h.delete happly
  | update record newContent => exact h.update hkeyed happly
  | replace currentRecord newRow => exact absurd hkeyed not_false
  | reset => exact absurd hkeyed not_false
  | write memory =>
      cases happly
      exact h.write hkeyed

theorem reachable (h : UniqueReachable t) : Distinct t := by
  rcases h with ⟨start, hstart, htable, hrun⟩
  induction hrun with
  | refl => exact initial hstart htable
  | tail _ hstep ih => exact ih.step hstep

theorem slots (h : Distinct t) {i j : Nat} (hi : i < t.hash.records)
    (hj : j < t.hash.records) (hne : i ≠ j) :
    ¬ EqualKeys t.hash t.memory (t.hash.links i).data (t.hash.links j).data := by
  have hdata : (t.hash.links i).data ≠ (t.hash.links j).data := by
    intro heq
    have honce : (Multiset.map (fun i => (t.hash.links i).data)
        (Finset.range t.hash.records).val).Nodup := h.once
    exact hne (Multiset.inj_on_of_nodup_map honce i (Finset.mem_range.mpr hi) j
      (Finset.mem_range.mpr hj) heq)
  exact h.keys _ (mem_contents.mpr ⟨i, hi, rfl⟩) _ (mem_contents.mpr ⟨j, hj, rfl⟩) hdata

end Distinct

/-!
## No two records with equal keys
-/

theorem Sound.search_own (h : Sound hash memory) (htable : UniqueTable hash)
    (hlength : HasLength hash (memory record)) (hrecord : record ∈ hash.contents)
    (hfree : ¬ KeyTaken hash memory record) :
    myHashSearch hash memory (myHashKey hash (memory record) true).1
      (myHashKey hash (memory record) true).2 = some record := by
  rcases h.search_spec htable.hashes (myHashKey hash (memory record) true).1
    (hlength true) with ⟨found, hsearch, _, hfound⟩
  rw [hsearch]
  rcases hfound with ⟨i, hi, hkey, hdata⟩ | ⟨hnone, _⟩
  · have heq := (hasKey_iff hlength).mp hkey
    rw [hdata] at heq
    by_cases hsame : found = record
    · rw [hsame]
    · exact absurd ⟨found, mem_contents.mpr ⟨i, hi, hdata⟩, hsame, heq⟩ hfree
  · rcases mem_contents.mp hrecord with ⟨i, hi, hdata⟩
    have hkey : hash.hasKey memory (myHashKey hash (memory record) true).1
        (myHashKey hash (memory record) true).2 i = true := by
      rw [hasKey_iff hlength, hdata]
      exact htable.equalKeys_refl
    rw [hnone i hi] at hkey
    exact absurd hkey (by simp)

/-- In every reachable table for unique keys no two slots have records with equal
keys. `my_hash_update`, called for a record that carries its new key on the chain of
its old one, whatever the two buckets are, refuses the key if and only if another
record has it, and otherwise puts the record where a search for the new key finds
it. -/
theorem unique_keys {t : Table content} (h : UniqueReachable t) :
    (forall i j, i < t.hash.records -> j < t.hash.records -> i ≠ j ->
      ¬ EqualKeys t.hash t.memory (t.hash.links i).data (t.hash.links j).data) ∧
    forall record newContent, record ∈ t.hash.contents -> HasLength t.hash newContent ->
      let now := Function.update t.memory record newContent
      let oldKey := myHashKey t.hash (t.memory record) false
      let newKey := myHashKey t.hash newContent true
      (KeyTaken t.hash now record ->
        duplicateUpdate t.hash now record = some true ∧
          myHashUpdate t.hash now record oldKey.1 oldKey.2 = some (1, t.hash)) ∧
      (¬ KeyTaken t.hash now record ->
        duplicateUpdate t.hash now record = some false ∧
          exists hash', myHashUpdate t.hash now record oldKey.1 oldKey.2 =
              some (0, hash') ∧
            hash'.contents = t.hash.contents ∧
            myHashSearch hash' now newKey.1 newKey.2 = some record) := by
  have hdistinct := Distinct.reachable h
  refine ⟨fun i j hi hj hne => hdistinct.slots hi hj hne, ?_⟩
  intro record newContent hrecord hlength now oldKey newKey
  have hiff := hdistinct.sound.duplicateUpdate_iff hdistinct.table record hlength
    hdistinct.notNull
  have hupdates := hdistinct.updatesOneRecord hrecord newContent
  rcases myHashUpdate_spec hdistinct.sound hrecord hupdates with
    ⟨hduplicate, hrefused⟩ | ⟨hduplicate, hash', haccepted, hsound, hcontents, _⟩
  · have htaken := hiff.mp hduplicate
    exact ⟨fun _ => ⟨hduplicate, hrefused⟩, fun hfree => absurd htaken hfree⟩
  · have hfree : ¬ KeyTaken t.hash now record := by
      rw [← hiff, hduplicate]
      simp
    refine ⟨fun htaken => absurd htaken hfree, fun _ => ⟨hduplicate, hash', haccepted,
      hcontents, ?_⟩⟩
    have honly := myHashUpdate_onlyLinks haccepted
    have hnewKey : newKey = myHashKey hash' (now record) true := by
      rw [honly.myHashKey_eq]
      simp [newKey, now]
    rw [hnewKey]
    apply hsound.search_own (hdistinct.table.onlyLinks honly)
    · intro first
      rw [honly.myHashKey_eq, Function.update_self]
      exact hlength first
    · rw [hcontents]
      exact hrecord
    · intro htaken
      rcases htaken with ⟨other, hother, hne, heq⟩
      rw [hcontents] at hother
      rw [honly.equalKeys_iff] at heq
      exact hfree ⟨other, hother, hne, heq⟩

section Examples

/-- The empty table for unique keys of one byte, which are their own hash values,
and the records 8 with key 0 and 16 with key 5. -/
def byteKeys : Table Bytes where
  hash := myHashInit (fun key _ => (key 0).toUInt32)
    (fun key _ key' _ => if key 0 = key' 0 then 0 else 1)
    0 1 none false myHashUNIQUE (fun _ => { next := 0, data := NULL })
  memory := fun record => if record = 8 then twoBytes 0 0 else twoBytes 5 0

theorem byteKeys_unique : UniqueTable byteKeys.hash where
  unique := by decide
  hashes := by
    intro memory pos key length hlength hcmp
    have hsame : memory pos.data 0 = key 0 := by
      simpa [hashcmp, byteKeys, myHashInit, myHashKey, Readable.bytesFrom] using
        (Bool.or_eq_false_iff.mp hcmp).right
    simp [recHashnr, hashCalc, byteKeys, myHashInit, myHashKey, Readable.bytesFrom, hsame]
  reflexive := by
    intro key length
    simp [byteKeys, myHashInit]
  symmetric := by
    intro key key' length
    simp only [byteKeys, myHashInit]
    grind

theorem UniqueReachable.after {t : Table content} (h : UniqueReachable t)
    (op : Op content) (hkeyed : Op.Keyed t op) (hends : (op.apply t).isSome = true)
    (hbound : (t.after op).hash.records < 2 ^ 31) : UniqueReachable (t.after op) := by
  rcases h with ⟨start, hstart, htable, hrun⟩
  rcases Option.isSome_iff_exists.mp hends with ⟨⟨ret, t', freed⟩, happly⟩
  have hafter : t.after op = t' := by
    unfold Table.after
    rw [happly]
  rw [hafter] at hbound ⊢
  exact ⟨start, hstart, htable, hrun.tail ⟨op, ret, freed, hkeyed, happly, hbound⟩⟩

def twoByteKeys : Table Bytes :=
  (byteKeys.after (.insert 8 freshSlot)).after (.insert 16 freshSlot)

theorem twoByteKeys_reachable : UniqueReachable twoByteKeys := by
  have hstart : UniqueReachable byteKeys :=
    ⟨byteKeys, ⟨rfl, rfl, rfl⟩, byteKeys_unique, Relation.ReflTransGen.refl⟩
  have hone : UniqueReachable (byteKeys.after (.insert 8 freshSlot)) :=
    hstart.after _ ⟨by decide, by decide⟩ (by decide) (by decide)
  exact hone.after _ ⟨by decide, by decide⟩ (by decide) (by decide)

theorem unique_keys_twoByteKeys :
    (exists hash', myHashUpdate twoByteKeys.hash
        (Function.update twoByteKeys.memory 8 (twoBytes 1 0)) 8
        (myHashKey twoByteKeys.hash (twoByteKeys.memory 8) false).1 1 = some (0, hash') ∧
      myHashSearch hash' (Function.update twoByteKeys.memory 8 (twoBytes 1 0))
        (myHashKey twoByteKeys.hash (twoBytes 1 0) true).1 1 = some 8) ∧
    myHashUpdate twoByteKeys.hash (Function.update twoByteKeys.memory 8 (twoBytes 5 0)) 8
      (myHashKey twoByteKeys.hash (twoByteKeys.memory 8) false).1 1 =
        some (1, twoByteKeys.hash) := by
  have hmem : 8 ∈ twoByteKeys.hash.contents :=
    mem_contents.mpr ⟨0, by decide, by decide⟩
  have hone := (unique_keys twoByteKeys_reachable).right 8 (twoBytes 1 0) hmem
    (by decide)
  have hfive := (unique_keys twoByteKeys_reachable).right 8 (twoBytes 5 0) hmem
    (by decide)
  have hfree : ¬ KeyTaken twoByteKeys.hash
      (Function.update twoByteKeys.memory 8 (twoBytes 1 0)) 8 := by
    intro htaken
    exact absurd (hone.left htaken).left (by decide)
  have htaken : KeyTaken twoByteKeys.hash
      (Function.update twoByteKeys.memory 8 (twoBytes 5 0)) 8 :=
    ⟨16, mem_contents.mpr ⟨1, by decide, by decide⟩, by decide,
      by decide, by decide⟩
  rcases hone.right hfree with ⟨_, hash', hupdate, _, hsearch⟩
  exact ⟨⟨hash', hupdate, hsearch⟩, (hfive.left htaken).right⟩

end Examples

end DynHash
end MyLibs
