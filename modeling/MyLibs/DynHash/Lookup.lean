import MyLibs.DynHash.Unlinking

/-!
# Searching a table

A search looks at the slot of the key's bucket, and if that slot is the head of
its chain, at the rest of the chain. `my_hash_next` goes on from there.
-/

namespace MyLibs
namespace DynHash

open Foundation

structure Sound {content : Type _} [Readable content] (hash : MyHash content)
    (memory : Ptr -> content) : Prop where
  bound : hash.records < 2 ^ 31
  elements : hash.array.elements = hash.records
  size : TableSize hash.blength hash.records
  linked : Linked (recHashnr hash memory) hash.blength hash.records hash.links
    (Finset.range hash.records)

section Answers

variable {content : Type _} {hash : MyHash content}

def MyHash.answer (hash : MyHash content) : Option Nat -> Ptr × Nat
  | some i => ((hash.links i).data, i)
  | none => (NULL, NO_RECORD)

@[simp]
theorem answer_some {i : Nat} : hash.answer (some i) = ((hash.links i).data, i) :=
  rfl

@[simp]
theorem answer_none : hash.answer none = (NULL, NO_RECORD) :=
  rfl

end Answers

variable {content : Type _} [Readable content]
variable {hash : MyHash content} {memory : Ptr -> content}
variable {key : Bytes} {length : Nat}

def MyHash.hasKey (hash : MyHash content) (memory : Ptr -> content) (key : Bytes)
    (length : Nat) (i : Nat) : Bool :=
  !hashcmp hash memory (hash.links i) key length

/-!
## Along a chain
-/

theorem nextLoop_eq {fuel start : Nat} {path : List Nat}
    (h : Segment (nextOf hash.links) start path NO_RECORD) (hnil : NO_RECORD ∉ path)
    (hfuel : path.length < fuel) :
    nextLoop hash memory key length fuel start =
      some (hash.answer (path.find? (hash.hasKey memory key length))) := by
  induction path generalizing start fuel with
  | nil =>
      cases fuel with
      | zero => exact absurd hfuel (Nat.not_lt_zero _)
      | succ fuel =>
          have hstart : start = NO_RECORD := h
          simp [nextLoop, hstart]
  | cons i path ih =>
      cases fuel with
      | zero => exact absurd hfuel (Nat.not_lt_zero _)
      | succ fuel =>
          have hstart : start = i := h.left
          have htail : Segment (nextOf hash.links) (hash.links i).next path NO_RECORD :=
            h.right
          have hne : i ≠ NO_RECORD := by
            rintro rfl
            exact hnil (List.mem_cons_self ..)
          have hrec := ih htail (List.not_mem_of_not_mem_cons hnil)
            (Nat.lt_of_succ_lt_succ hfuel)
          cases hkey : hash.hasKey memory key length i with
          | true =>
              have hcmp : hashcmp hash memory (hash.links i) key length = false := by
                simpa [MyHash.hasKey] using hkey
              simp [nextLoop, hstart, hne, hcmp, hkey]
          | false =>
              have hcmp : hashcmp hash memory (hash.links i) key length = true := by
                simpa [MyHash.hasKey] using hkey
              simp [nextLoop, hstart, hne, hcmp, hkey, hrec]

theorem firstLoop_false_eq {fuel start : Nat} {path : List Nat}
    (h : Segment (nextOf hash.links) start (start :: path) NO_RECORD)
    (hnil : NO_RECORD ∉ start :: path) (hfuel : path.length < fuel) :
    firstLoop hash memory key length fuel false start =
      some (hash.answer ((start :: path).find? (hash.hasKey memory key length))) := by
  induction path generalizing start fuel with
  | nil =>
      cases fuel with
      | zero => exact absurd hfuel (Nat.not_lt_zero _)
      | succ fuel =>
          have hend : (hash.links start).next = NO_RECORD := h.right
          cases hkey : hash.hasKey memory key length start with
          | true =>
              have hcmp : hashcmp hash memory (hash.links start) key length = false := by
                simpa [MyHash.hasKey] using hkey
              simp [firstLoop, hcmp, hkey]
          | false =>
              have hcmp : hashcmp hash memory (hash.links start) key length = true := by
                simpa [MyHash.hasKey] using hkey
              simp [firstLoop, hcmp, hkey, hend]
  | cons j path ih =>
      cases fuel with
      | zero => exact absurd hfuel (Nat.not_lt_zero _)
      | succ fuel =>
          have hj : (hash.links start).next = j := h.right.left
          have htail := List.not_mem_of_not_mem_cons hnil
          have hne : j ≠ NO_RECORD := by
            rintro rfl
            exact htail (List.mem_cons_self ..)
          have hsegment : Segment (nextOf hash.links) j (j :: path) NO_RECORD :=
            ⟨rfl, h.right.right⟩
          have hrec := ih hsegment htail (Nat.lt_of_succ_lt_succ hfuel)
          cases hkey : hash.hasKey memory key length start with
          | true =>
              have hcmp : hashcmp hash memory (hash.links start) key length = false := by
                simpa [MyHash.hasKey] using hkey
              simp [firstLoop, hcmp, hkey]
          | false =>
              have hcmp : hashcmp hash memory (hash.links start) key length = true := by
                simpa [MyHash.hasKey] using hkey
              rw [List.find?_cons_of_neg (by simp [hkey])]
              simp [firstLoop, hcmp, hj, hne, hrec]

def searched (hashnr : Ptr -> UInt32) (blength records : Nat)
    (data : Nat -> HashLink) (start : Nat) (path : List Nat) : List Nat :=
  if homeOf hashnr blength records data start = start then start :: path else [start]

theorem firstLoop_true_eq (memory : Ptr -> content) (key : Bytes) (length : Nat)
    {fuel start : Nat} {path : List Nat}
    (h : Segment (nextOf hash.links) start (start :: path) NO_RECORD)
    (hnil : NO_RECORD ∉ start :: path) (hfuel : path.length < fuel) :
    firstLoop hash memory key length fuel true start =
      some (hash.answer ((searched (recHashnr hash memory) hash.blength hash.records
        hash.links start path).find? (hash.hasKey memory key length))) := by
  cases fuel with
  | zero => exact absurd hfuel (Nat.not_lt_zero _)
  | succ fuel =>
      have hmask : myHashRecMask hash memory (hash.links start) hash.blength
          hash.records = homeOf (recHashnr hash memory) hash.blength hash.records
            hash.links start := rfl
      unfold searched
      by_cases hown : homeOf (recHashnr hash memory) hash.blength hash.records
          hash.links start = start
      · -- the right chain: from here on as without the check
        rw [if_pos hown, ← firstLoop_false_eq h hnil hfuel]
        simp [firstLoop, hmask, hown]
      · rw [if_neg hown]
        cases hkey : hash.hasKey memory key length start with
        | true =>
            have hcmp : hashcmp hash memory (hash.links start) key length = false := by
              simpa [MyHash.hasKey] using hkey
            simp [firstLoop, hcmp, hkey]
        | false =>
            have hcmp : hashcmp hash memory (hash.links start) key length = true := by
              simpa [MyHash.hasKey] using hkey
            simp [firstLoop, hmask, hcmp, hkey, hown]

/-!
## All records with a key
-/

/-- A caller's loop over `my_hash_next`, from what `my_hash_first` returned until
the cursor is `NO_RECORD`: everything that was returned on the way. -/
def matchesFrom (hash : MyHash content) (memory : Ptr -> content) (key : Bytes)
    (length : Nat) : Nat -> Ptr × Nat -> Option (List Ptr)
  | 0, _ => none
  | fuel + 1, (found, state) =>
      if state = NO_RECORD then
        some [found]
      else
        (myHashNext hash memory key length state).bind fun next =>
          (matchesFrom hash memory key length fuel next).map fun rest => found :: rest

theorem matchesFrom_eq {start fuel : Nat} {path : List Nat}
    (h : Segment (nextOf hash.links) start path NO_RECORD) (hnil : NO_RECORD ∉ path)
    (hbound : path.length <= hash.records) (hfuel : path.length < fuel) :
    matchesFrom hash memory key length fuel
        (hash.answer (path.find? (hash.hasKey memory key length))) =
      some ((path.filter (hash.hasKey memory key length)).map
        (fun i => (hash.links i).data) ++ [NULL]) := by
  induction fuel generalizing start path with
  | zero => exact absurd hfuel (Nat.not_lt_zero _)
  | succ fuel ih =>
      cases hfound : path.find? (hash.hasKey memory key length) with
      | none =>
          have hfilter : path.filter (hash.hasKey memory key length) = [] := by
            rw [List.filter_eq_nil_iff]
            exact List.find?_eq_none.mp hfound
          simp [matchesFrom, hfilter]
      | some i =>
          rcases List.find?_eq_some_iff_append.mp hfound with
            ⟨hkey, before, after, hsplit, hbefore⟩
          rw [hsplit] at h hnil hbound hfuel
          rw [List.length_append, List.length_cons] at hbound hfuel
          have hafter : NO_RECORD ∉ after := fun hmem => hnil (by simp [hmem])
          have hi : i ≠ NO_RECORD := by
            rintro rfl
            exact hnil (by simp)
          have hnext : myHashNext hash memory key length i =
              some (hash.answer (after.find? (hash.hasKey memory key length))) := by
            unfold myHashNext
            rw [if_pos (by simpa using hi)]
            exact nextLoop_eq h.split_cons.right hafter (by omega)
          have hrec := ih h.split_cons.right hafter (by omega) (by omega)
          have hfilter : path.filter (hash.hasKey memory key length) =
              i :: after.filter (hash.hasKey memory key length) := by
            have hnone : before.filter (hash.hasKey memory key length) = [] := by
              rw [List.filter_eq_nil_iff]
              intro j hj
              simpa using hbefore j hj
            rw [hsplit, List.filter_append, hnone, List.nil_append,
              List.filter_cons_of_pos hkey]
          rw [hfilter]
          simp [matchesFrom, hi, hnext, hrec]

theorem nextLoop_cursor {fuel idx : Nat} {next : Ptr × Nat}
    (h : nextLoop hash memory key length fuel idx = some next)
    (hend : next.2 = NO_RECORD) : next.1 = NULL := by
  induction fuel generalizing idx with
  | zero => exact absurd h (by simp [nextLoop])
  | succ fuel ih =>
      unfold nextLoop at h
      simp only at h
      split at h
      · rename_i hidx
        split at h
        · cases h
          exact absurd hend (by simpa using hidx)
        · exact ih h
      · cases h
        rfl

theorem otherRecord_eq {record : Ptr} {fuel : Nat} {cursor : Ptr × Nat}
    {found : List Ptr} (h : matchesFrom hash memory key length fuel cursor = some found)
    (hend : cursor.2 = NO_RECORD -> cursor.1 = NULL) :
    otherRecord hash memory record key length fuel cursor =
      some ((found.takeWhile fun other => other != NULL).any
        fun other => other != record) := by
  induction fuel generalizing cursor found with
  | zero => exact absurd h (by simp [matchesFrom])
  | succ fuel ih =>
      rcases cursor with ⟨head, state⟩
      unfold matchesFrom at h
      split at h
      · rename_i hstate
        cases h
        have hnull : head = NULL := hend hstate
        simp [otherRecord, hnull]
      · rcases Option.bind_eq_some_iff.mp h with ⟨next, hnext, hrest⟩
        rcases Option.map_eq_some_iff.mp hrest with ⟨rest, hmatches, hfound⟩
        have hnextEnd : next.2 = NO_RECORD -> next.1 = NULL := by
          rename_i hstate
          unfold myHashNext at hnext
          rw [if_pos (by simpa using hstate)] at hnext
          exact nextLoop_cursor hnext
        have hrec := ih hmatches hnextEnd
        rw [← hfound]
        by_cases hnull : head = NULL
        · simp [otherRecord, hnull]
        · by_cases hself : head = record
          · have hrecord : record ≠ NULL := by
              rw [← hself]
              exact hnull
            simpa [otherRecord, hself, hrecord, hnext] using hrec
          · simp [otherRecord, hnull, hself]

/-!
## On a sound table
-/

namespace Sound

theorem nil_not_mem (h : Sound hash memory) :
    NO_RECORD ∉ Finset.range hash.records :=
  noRecord_not_mem h.bound

theorem walk (h : Sound hash memory) {start : Nat} (hstart : start < hash.records) :
    exists path, Segment (nextOf hash.links) start (start :: path) NO_RECORD ∧
      NO_RECORD ∉ start :: path ∧ path.length < hash.records ∧
      (forall i, i ∈ start :: path -> i < hash.records) := by
  have hnil := h.nil_not_mem
  have hmem := Finset.mem_range.mpr hstart
  rcases h.linked start hmem with ⟨whole, hwhole⟩
  rcases List.append_of_mem ((hwhole.mem_iff start).mpr ⟨hmem, rfl⟩) with
    ⟨skipped, path, hsplit⟩
  have hsegment := hwhole.segment
  have hwholeNil := hwhole.nil_not_mem hnil
  have hlength := hwhole.length_le_card hnil
  rw [hsplit] at hsegment hwholeNil hlength
  rw [Finset.card_range, List.length_append, List.length_cons] at hlength
  refine ⟨path, ⟨rfl, hsegment.split_cons.right⟩, ?_, by omega, ?_⟩
  · intro hmem
    exact hwholeNil (List.mem_append_right _ hmem)
  · intro i hi
    have hlive := (hwhole.mem_iff i).mp (by rw [hsplit]; exact List.mem_append_right _ hi)
    exact Finset.mem_range.mp hlive.left

theorem mask_lt (h : Sound hash memory) (hpos : 0 < hash.records)
    (hashnr : UInt32) : myHashMask hashnr hash.blength hash.records < hash.records :=
  myHashMask_lt h.size hpos h.bound

/-- Every search ends, also while a record of the table has another key than when
it was linked. It goes down a path of slots, which is the whole chain of the bucket
if the bucket's slot is at home. -/
theorem first_path (h : Sound hash memory) (now : Ptr -> content)
    (hashValue : UInt32) (key : Bytes) (length : Nat) :
    exists start path, Segment (nextOf hash.links) start path NO_RECORD ∧
      NO_RECORD ∉ path ∧ path.length <= hash.records ∧
      (forall i, i ∈ path -> i < hash.records) ∧
      myHashFirstFromHashValue hash now hashValue key length =
        some (hash.answer (path.find? (hash.hasKey now key length))) ∧
      (homeOf (recHashnr hash now) hash.blength hash.records hash.links
          (myHashMask hashValue hash.blength hash.records) =
        myHashMask hashValue hash.blength hash.records ->
        forall i, i < hash.records ->
          homeOf (recHashnr hash memory) hash.blength hash.records hash.links i =
            myHashMask hashValue hash.blength hash.records -> i ∈ path) := by
  unfold myHashFirstFromHashValue firstBucket
  by_cases hempty : hash.records = 0
  · rw [if_neg (by simp [hempty])]
    refine ⟨NO_RECORD, [], rfl, List.not_mem_nil, Nat.zero_le _, ?_, rfl, ?_⟩
    · intro i hi
      exact absurd hi List.not_mem_nil
    · intro _ i hi
      omega
  · rw [if_pos (by simpa using hempty)]
    have hidx := h.mask_lt (Nat.pos_of_ne_zero hempty) hashValue
    generalize myHashMask hashValue hash.blength hash.records = idx at hidx ⊢
    rcases h.walk hidx with ⟨path, hsegment, hnil, hlength, hlive⟩
    have hfirst := firstLoop_true_eq now key length hsegment hnil
      (show path.length < hash.records + 1 by omega)
    rw [hfirst]
    unfold searched
    by_cases hown : homeOf (recHashnr hash now) hash.blength hash.records hash.links
        idx = idx
    · rw [if_pos hown]
      refine ⟨idx, idx :: path, hsegment, hnil, ?_, hlive, rfl, ?_⟩
      · rw [List.length_cons]
        omega
      · -- the chain of the bucket is the only path from its slot on
        intro _ i hi hhome
        have hmem := Finset.mem_range.mpr hi
        rcases h.linked i hmem with ⟨whole, hwhole⟩
        rw [hhome] at hwhole
        have hsame := hsegment.unique hwhole.segment hnil
          (hwhole.nil_not_mem h.nil_not_mem)
        rw [hsame]
        exact (hwhole.mem_iff i).mpr ⟨hmem, hhome⟩
    · rw [if_neg hown]
      cases hkey : hash.hasKey now key length idx with
      | true =>
          -- a record with the key in a wrong place is found all the same
          refine ⟨idx, idx :: path, hsegment, hnil, ?_, hlive, ?_, ?_⟩
          · rw [List.length_cons]
            omega
          · rw [List.find?_cons_of_pos hkey, List.find?_cons_of_pos hkey]
          · intro hhome
            exact absurd hhome hown
      | false =>
          refine ⟨NO_RECORD, [], rfl, List.not_mem_nil, Nat.zero_le _, ?_, ?_, ?_⟩
          · intro i hi
            exact absurd hi List.not_mem_nil
          · simp [hkey]
          · intro hhome
            exact absurd hhome hown

theorem search_total (h : Sound hash memory) (key : Bytes) (length : Nat) :
    exists found, myHashSearch hash memory key length = some found := by
  rcases h.first_path memory (hashCalc hash key (if length != 0 then length
    else hash.keyLength)) key length with ⟨_, path, _, _, _, _, hfound, _⟩
  have hblength : hash.blength ≠ 0 := Nat.ne_of_gt h.size.pos
  unfold myHashSearch myHashFirst
  rw [if_pos (by simpa using hblength), hfound]
  exact ⟨_, rfl⟩

theorem duplicateKey_total (h : Sound hash memory) (record : Ptr) :
    exists duplicate, duplicateKey hash memory record = some duplicate := by
  unfold duplicateKey
  cases hash.unique with
  | false => exact ⟨false, rfl⟩
  | true =>
      rcases h.search_total (myHashKey hash (memory record) true).1
        (myHashKey hash (memory record) true).2 with ⟨found, hfound⟩
      exact ⟨found != NULL, by simp [hfound]⟩

/-- The test for a duplicate of the changed record goes over the records with its
new key on a path of slots. -/
theorem duplicateUpdate_path (h : Sound hash memory) (now : Ptr -> content)
    (record : Ptr) (hunique : hash.unique = true) {hashValue : UInt32}
    (hhash : hashCalc hash (myHashKey hash (now record) true).1
      (if (myHashKey hash (now record) true).2 != 0
        then (myHashKey hash (now record) true).2 else hash.keyLength) = hashValue) :
    exists path : List Nat, (forall i, i ∈ path -> i < hash.records) ∧
      (homeOf (recHashnr hash now) hash.blength hash.records hash.links
          (myHashMask hashValue hash.blength hash.records) =
        myHashMask hashValue hash.blength hash.records ->
        forall i, i < hash.records ->
          homeOf (recHashnr hash memory) hash.blength hash.records hash.links i =
            myHashMask hashValue hash.blength hash.records -> i ∈ path) ∧
      duplicateUpdate hash now record =
        some ((((path.filter (hash.hasKey now (myHashKey hash (now record) true).1
            (myHashKey hash (now record) true).2)).map
              (fun i => (hash.links i).data) ++ [NULL]).takeWhile
            fun other => other != NULL).any fun other => other != record) := by
  have hblength : hash.blength ≠ 0 := Nat.ne_of_gt h.size.pos
  generalize hkey : myHashKey hash (now record) true = newKey at hhash
  rcases h.first_path now hashValue newKey.1 newKey.2 with
    ⟨start, path, hsegment, hnil, hbound, hlive, hfound, hwhole⟩
  refine ⟨path, hlive, hwhole, ?_⟩
  unfold duplicateUpdate myHashFirst
  simp only [hunique, if_true, hkey, hhash]
  rw [if_pos (by simpa using hblength), hfound, Option.bind_some]
  refine otherRecord_eq (matchesFrom_eq hsegment hnil hbound (by omega)) ?_
  cases hfind : path.find? (hash.hasKey now newKey.1 newKey.2) with
  | none =>
      intro _
      rfl
  | some i =>
      intro hi
      apply absurd _ hnil
      rw [← show i = NO_RECORD from hi]
      exact List.mem_of_find?_eq_some hfind

theorem duplicateUpdate_total (h : Sound hash memory) (now : Ptr -> content)
    (record : Ptr) : exists duplicate, duplicateUpdate hash now record = some duplicate := by
  cases hunique : hash.unique with
  | false => exact ⟨false, by simp [duplicateUpdate, hunique]⟩
  | true =>
      rcases h.duplicateUpdate_path now record hunique rfl with ⟨_, _, _, hresult⟩
      exact ⟨_, hresult⟩

end Sound

/-!
## Exact lookups
-/

def HashesAgree (hash : MyHash content) : Prop :=
  forall memory pos key length, length ≠ 0 ->
    hashcmp hash memory pos key length = false ->
    recHashnr hash memory pos.data = hashCalc hash key length

theorem Sound.search_slots (h : Sound hash memory) (hhash : HashesAgree hash)
    (key : Bytes) (hlength : length ≠ 0) :
    exists path : List Nat, path.Nodup ∧
      (forall i, i ∈ path.filter (hash.hasKey memory key length) <->
        i < hash.records ∧ hash.hasKey memory key length i = true) ∧
      myHashFirstFromHashValue hash memory (hashCalc hash key length) key length =
        some (hash.answer (path.find? (hash.hasKey memory key length))) ∧
      matchesFrom hash memory key length (hash.records + 1)
          (hash.answer (path.find? (hash.hasKey memory key length))) =
        some ((path.filter (hash.hasKey memory key length)).map
          (fun i => (hash.links i).data) ++ [NULL]) := by
  rcases h.first_path memory (hashCalc hash key length) key length with
    ⟨start, path, hsegment, hout, hbound, hlive, hfirst, hwhole⟩
  refine ⟨path, hsegment.nodup hout, ?_, hfirst,
    matchesFrom_eq hsegment hout hbound (by omega)⟩
  intro i
  rw [List.mem_filter]
  constructor
  · intro hi
    exact ⟨hlive i hi.left, hi.right⟩
  · intro hi
    refine ⟨?_, hi.right⟩
    have hcmp : hashcmp hash memory (hash.links i) key length = false := by
      simpa [MyHash.hasKey] using hi.right
    have hhome : homeOf (recHashnr hash memory) hash.blength hash.records hash.links
        i = myHashMask (hashCalc hash key length) hash.blength hash.records := by
      unfold homeOf
      rw [hhash memory _ key length hlength hcmp]
    have hhead := (Chained.home_mem h.linked (Finset.mem_range.mpr hi.left)).right
    rw [hhome] at hhead
    exact hwhole hhead i hi.left hhome

theorem Sound.first_eq_using_hash_value (h : Sound hash memory) (key : Bytes)
    (hlength : length ≠ 0) :
    myHashFirst hash memory key length 0 =
      myHashFirstFromHashValue hash memory (hashCalc hash key length) key length := by
  have hblength : hash.blength ≠ 0 := Nat.ne_of_gt h.size.pos
  unfold myHashFirst
  rw [if_pos (by simpa using hblength), if_pos (by simpa using hlength)]

theorem Sound.search_spec (h : Sound hash memory) (hhash : HashesAgree hash)
    (key : Bytes) (hlength : length ≠ 0) :
    exists found, myHashSearch hash memory key length = some found ∧
      myHashSearchUsingHashValue hash memory (hashCalc hash key length) key length =
        some found ∧
      ((exists i, i < hash.records ∧ hash.hasKey memory key length i = true ∧
          (hash.links i).data = found) ∨
        (forall i, i < hash.records -> hash.hasKey memory key length i = false) ∧
          found = NULL) := by
  rcases h.search_slots hhash key hlength with ⟨path, _, hslots, hfirst, _⟩
  refine ⟨(hash.answer (path.find? (hash.hasKey memory key length))).1, ?_, ?_, ?_⟩
  · unfold myHashSearch
    rw [h.first_eq_using_hash_value key hlength, hfirst]
    rfl
  · unfold myHashSearchUsingHashValue
    rw [hfirst]
    rfl
  · cases hfound : path.find? (hash.hasKey memory key length) with
    | some i =>
        left
        have hi := (hslots i).mp (List.mem_filter.mpr
          ⟨List.mem_of_find?_eq_some hfound, List.find?_some hfound⟩)
        exact ⟨i, hi.left, hi.right, rfl⟩
    | none =>
        right
        refine ⟨?_, rfl⟩
        intro i hi
        cases hkey : hash.hasKey memory key length i with
        | false => rfl
        | true =>
            have hmem := List.mem_filter.mp ((hslots i).mpr ⟨hi, hkey⟩)
            exact absurd hkey (List.find?_eq_none.mp hfound i hmem.left)

end DynHash
end MyLibs
