import Mathlib.Logic.Function.Basic
import MyLibs.Platform

/-!
# The linear-hashing table of `my_dyn_hash.c`

All chains of the table live in one array of links. The functions below follow
the source; a loop over a chain takes the number of slots plus one as fuel and
answers `none` when it runs out of it.

Records are the caller's memory: the table only stores pointers to them and
reads their keys again whenever it needs a hash value. `memory` is what the
record pointers lead to at the time of the call.
-/

namespace MyLibs
namespace DynHash

abbrev Bytes := Nat -> UInt8

/-- What a record pointer leads to; `record + offset` shows its bytes from there
on. -/
class Readable (content : Type _) where
  bytesFrom : content -> Nat -> Bytes

instance : Readable Bytes where
  bytesFrom bytes offset := fun i => bytes (offset + i)

/-- `my_hash_link`. -/
structure HashLink where
  /-- Index to next key. -/
  next : Nat
  /-- Data for current entry. -/
  data : Ptr
deriving DecidableEq

/-- `(unsigned int) -1`. -/
def NO_RECORD : Nat := 2 ^ 32 - 1

/-- The part of `my_array` the table relies on. -/
structure LinkArray where
  buffer : Nat -> HashLink
  elements : Nat

/-- `my_array_alloc`: no memory, or a slot behind the last one that still holds
whatever was there. -/
def myArrayAlloc (array : LinkArray) (block : Option HashLink) : Option LinkArray :=
  block.map fun garbage =>
    { buffer := Function.update array.buffer array.elements garbage
      elements := array.elements + 1 }

def myArrayPop (array : LinkArray) : LinkArray :=
  { array with elements := array.elements - 1 }

def myArrayReset (array : LinkArray) : LinkArray :=
  { array with elements := 0 }

/-- `my_hash`, with the collation of its character set. -/
structure MyHash (content : Type _) where
  keyOffset : Nat
  keyLength : Nat
  blength : Nat
  records : Nat
  flags : Nat
  array : LinkArray
  /-- Key and length of a record; the flag is the callback's `first`. -/
  getKey : Option (content -> Bool -> Bytes × Nat)
  /-- Whether a free function is set. -/
  free : Bool
  hashFunction : Bytes -> Nat -> UInt32
  /-- `my_strnncoll` for `hash->charset`. -/
  strnncoll : Bytes -> Nat -> Bytes -> Nat -> Int32

def myHashUNIQUE : Nat := 1

/-- `my_hash_UNIQUE & hash->flags`. -/
def MyHash.unique {content : Type _} (hash : MyHash content) : Bool :=
  myHashUNIQUE &&& hash.flags != 0

abbrev MyHash.links {content : Type _} (hash : MyHash content) : Nat -> HashLink :=
  hash.array.buffer

/-!
## Buckets
-/

def myHashMask (hashnr : UInt32) (buffmax maxlength : Nat) : Nat :=
  if hashnr.toNat &&& sizetSub buffmax 1 < maxlength then
    hashnr.toNat &&& sizetSub buffmax 1
  else
    hashnr.toNat &&& sizetSub (buffmax >>> 1) 1

section Keys

variable {content : Type _} [Readable content]

def hashCalc (hash : MyHash content) (key : Bytes) (length : Nat) : UInt32 :=
  hash.hashFunction key length

def myHashCalc (hash : MyHash content) (key : Bytes) (length : Nat) : UInt32 :=
  hashCalc hash key (if length != 0 then length else hash.keyLength)

def myHashKey (hash : MyHash content) (record : content) (first : Bool) :
    Bytes × Nat :=
  match hash.getKey with
  | some getKey => getKey record first
  | none => (Readable.bytesFrom record hash.keyOffset, hash.keyLength)

def recHashnr (hash : MyHash content) (memory : Ptr -> content) (record : Ptr) :
    UInt32 :=
  hashCalc hash (myHashKey hash (memory record) false).1
    (myHashKey hash (memory record) false).2

def myHashRecMask (hash : MyHash content) (memory : Ptr -> content)
    (pos : HashLink) (buffmax maxlength : Nat) : Nat :=
  myHashMask (recHashnr hash memory pos.data) buffmax maxlength

/-- The slot at which `my_hash_first_from_hash_value` starts. -/
def firstBucket (hash : MyHash content) (hashValue : UInt32) : Nat :=
  myHashMask hashValue hash.blength hash.records

/-- The slot at which `my_hash_delete` starts; `blength` is an `unsigned int`
there. -/
def deleteBucket (hash : MyHash content) (hashValue : UInt32) : Nat :=
  myHashMask hashValue (uint hash.blength) hash.records

/-- The slot that `my_hash_update` computes for the old and for the new key;
`blength` and `records` are `unsigned int` there. -/
def updateBucket (hash : MyHash content) (hashValue : UInt32) : Nat :=
  myHashMask hashValue (uint hash.blength) (uint hash.records)

/-- `hashcmp`: whether the record's key differs from the given key. -/
def hashcmp (hash : MyHash content) (memory : Ptr -> content) (pos : HashLink)
    (key : Bytes) (length : Nat) : Bool :=
  let recKey := myHashKey hash (memory pos.data) true
  (length != 0 && length != recKey.2) ||
    hash.strnncoll recKey.1 recKey.2 key recKey.2 != 0

/-!
## Searching

A search returns the record found, or the null pointer, and the slot it was
found in, or `NO_RECORD`.
-/

/-- The loop of `my_hash_first_from_hash_value`. -/
def firstLoop (hash : MyHash content) (memory : Ptr -> content) (key : Bytes)
    (length : Nat) : Nat -> Bool -> Nat -> Option (Ptr × Nat)
  | 0, _, _ => none
  | fuel + 1, flag, idx =>
      let pos := hash.links idx
      if !hashcmp hash memory pos key length then
        some (pos.data, idx)
      else if flag && myHashRecMask hash memory pos hash.blength hash.records != idx then
        some (NULL, NO_RECORD)
      else if pos.next != NO_RECORD then
        firstLoop hash memory key length fuel false pos.next
      else
        some (NULL, NO_RECORD)

def myHashFirstFromHashValue (hash : MyHash content) (memory : Ptr -> content)
    (hashValue : UInt32) (key : Bytes) (length : Nat) : Option (Ptr × Nat) :=
  if hash.records != 0 then
    firstLoop hash memory key length (hash.records + 1) true (firstBucket hash hashValue)
  else
    some (NULL, NO_RECORD)

/-- `my_hash_first`. A table without buckets leaves the caller's cursor alone. -/
def myHashFirst (hash : MyHash content) (memory : Ptr -> content) (key : Bytes)
    (length : Nat) (currentRecord : Nat) : Option (Ptr × Nat) :=
  if hash.blength != 0 then
    myHashFirstFromHashValue hash memory
      (hashCalc hash key (if length != 0 then length else hash.keyLength)) key length
  else
    some (NULL, currentRecord)

def myHashSearch (hash : MyHash content) (memory : Ptr -> content) (key : Bytes)
    (length : Nat) : Option Ptr :=
  (myHashFirst hash memory key length 0).map Prod.fst

def myHashSearchUsingHashValue (hash : MyHash content) (memory : Ptr -> content)
    (hashValue : UInt32) (key : Bytes) (length : Nat) : Option Ptr :=
  (myHashFirstFromHashValue hash memory hashValue key length).map Prod.fst

/-- The loop of `my_hash_next`. -/
def nextLoop (hash : MyHash content) (memory : Ptr -> content) (key : Bytes)
    (length : Nat) : Nat -> Nat -> Option (Ptr × Nat)
  | 0, _ => none
  | fuel + 1, idx =>
      if idx != NO_RECORD then
        let pos := hash.links idx
        if !hashcmp hash memory pos key length then
          some (pos.data, idx)
        else
          nextLoop hash memory key length fuel pos.next
      else
        some (NULL, NO_RECORD)

def myHashNext (hash : MyHash content) (memory : Ptr -> content) (key : Bytes)
    (length : Nat) (currentRecord : Nat) : Option (Ptr × Nat) :=
  if currentRecord != NO_RECORD then
    nextLoop hash memory key length (hash.records + 1)
      (hash.links currentRecord).next
  else
    some (NULL, currentRecord)

end Keys

/-!
## Inserting

`hashnr` stands for `rec_hashnr(info, ..)` at the time of the call.
-/

/-- `movelink`: the link to `find` on the chain from `nextLink` becomes one to
`newlink`. -/
def movelink (find newlink : Nat) :
    Nat -> (Nat -> HashLink) -> Nat -> Option (Nat -> HashLink)
  | 0, _, _ => none
  | fuel + 1, array, nextLink =>
      let oldLink := nextLink
      if (array oldLink).next != find then
        movelink find newlink fuel array (array oldLink).next
      else
        some (Function.update array oldLink
          { array oldLink with next := newlink })

/-- The bits of `flag` in `my_hash_insert`. -/
@[ext]
structure SplitFlag where
  lowfind : Bool
  lowused : Bool
  highfind : Bool
  highused : Bool
deriving DecidableEq

/-- `flag = 0`. -/
def SplitFlag.zero : SplitFlag where
  lowfind := false
  lowused := false
  highfind := false
  highused := false

/-- The variables of the splitting loop of `my_hash_insert`. -/
structure Split where
  data : Nat -> HashLink
  flag : SplitFlag
  empty : Nat
  gpos : Nat
  ptrToRec : Ptr
  gpos2 : Nat
  ptrToRec2 : Ptr

def splitStep (halfbuff : Nat) (hashNr : UInt32) (pos : Nat) (s : Split) : Split :=
  if hashNr.toNat &&& halfbuff = 0 then
    -- key will not move
    if !s.flag.lowfind then
      if s.flag.highfind then
        { s with
          flag := { SplitFlag.zero with lowfind := true, highfind := true }
          gpos := s.empty
          ptrToRec := (s.data pos).data
          empty := pos }
      else
        { s with
          flag := { SplitFlag.zero with lowfind := true, lowused := true }
          gpos := pos
          ptrToRec := (s.data pos).data }
    else if !s.flag.lowused then
      let data := Function.update s.data s.gpos
        { next := uint pos, data := s.ptrToRec }
      { s with
        data := data
        flag := { SplitFlag.zero with
          lowfind := true, lowused := true, highfind := s.flag.highfind }
        gpos := pos
        ptrToRec := (data pos).data }
    else
      { s with gpos := pos, ptrToRec := (s.data pos).data }
  else
    -- key will be moved
    if !s.flag.highfind then
      { s with
        flag := { SplitFlag.zero with lowfind := s.flag.lowfind, highfind := true }
        gpos2 := s.empty
        empty := pos
        ptrToRec2 := (s.data pos).data }
    else if !s.flag.highused then
      let data := Function.update s.data s.gpos2
        { next := uint pos, data := s.ptrToRec2 }
      { s with
        data := data
        flag := { SplitFlag.zero with
          lowfind := s.flag.lowfind, highfind := true, highused := true }
        gpos2 := pos
        ptrToRec2 := (data pos).data }
    else
      { s with gpos2 := pos, ptrToRec2 := (s.data pos).data }

/-- The splitting loop of `my_hash_insert`. -/
def splitLoop (hashnr : Ptr -> UInt32) (blength records halfbuff firstIndex : Nat) :
    Nat -> Nat -> Split -> Option Split
  | 0, _, _ => none
  | fuel + 1, pos, s =>
      let hashNr := hashnr (s.data pos).data
      if s.flag = SplitFlag.zero ∧ myHashMask hashNr blength records ≠ firstIndex then
        some s
      else
        let s := splitStep halfbuff hashNr pos s
        if (s.data pos).next != NO_RECORD then
          splitLoop hashnr blength records halfbuff firstIndex fuel (s.data pos).next s
        else
          some s

def splitFinish (s : Split) : Nat -> HashLink :=
  let data :=
    if s.flag.lowfind && !s.flag.lowused then
      Function.update s.data s.gpos { next := NO_RECORD, data := s.ptrToRec }
    else
      s.data
  if s.flag.highfind && !s.flag.highused then
    Function.update data s.gpos2 { next := NO_RECORD, data := s.ptrToRec2 }
  else
    data

/-- `my_hash_insert` from the allocated slot on to the search for the new
record's place: the links, and the slot that is free. -/
def splitBucket (hashnr : Ptr -> UInt32) (blength records : Nat)
    (data : Nat -> HashLink) (empty : Nat) : Option ((Nat -> HashLink) × Nat) :=
  let halfbuff := blength >>> 1
  let firstIndex := sizetSub records halfbuff
  if firstIndex != records then
    (splitLoop hashnr blength records halfbuff firstIndex (records + 1) firstIndex
      { data := data, flag := SplitFlag.zero, empty := empty, gpos := 0,
        ptrToRec := NULL, gpos2 := 0, ptrToRec2 := NULL }).map
      fun s => (splitFinish s, s.empty)
  else
    some (data, empty)

/-- The rest of `my_hash_insert`: the record enters its bucket. -/
def placeRecord (hashnr : Ptr -> UInt32) (blength records : Nat) (record : Ptr)
    (data : Nat -> HashLink) (empty : Nat) : Option (Nat -> HashLink) :=
  let pos := myHashMask (hashnr record) blength (records + 1)
  if pos = empty then
    some (Function.update data pos { next := NO_RECORD, data := record })
  else
    let data := Function.update data empty (data pos)
    let gpos := myHashMask (hashnr (data pos).data) blength (records + 1)
    if pos = gpos then
      some (Function.update data pos { next := uint empty, data := record })
    else
      movelink (uint pos) (uint empty) (records + 1)
        (Function.update data pos { next := NO_RECORD, data := record }) (uint gpos)

section Operations

variable {content : Type _} [Readable content]

/-- The test for a duplicate in `my_hash_insert`. -/
def duplicateKey (info : MyHash content) (memory : Ptr -> content) (record : Ptr) :
    Option Bool :=
  if info.unique then
    let key := myHashKey info (memory record) true
    (myHashSearch info memory key.1 key.2).map fun found => found != NULL
  else
    some false

/-- `my_hash_insert`. The block is what `my_array_alloc` finds behind the last
slot, if there is memory. -/
def myHashInsert (info : MyHash content) (memory : Ptr -> content) (record : Ptr)
    (block : Option HashLink) : Option (Nat × MyHash content) :=
  (duplicateKey info memory record).bind fun duplicate =>
    if duplicate then
      some (1, info)
    else
      match myArrayAlloc info.array block with
      | none => some (1, info)
      | some array =>
          (splitBucket (recHashnr info memory) info.blength info.records
              array.buffer info.array.elements).bind fun split =>
            (placeRecord (recHashnr info memory) info.blength info.records record
                split.1 split.2).map fun data =>
              (0, { info with
                array := { array with buffer := data }
                records := info.records + 1
                blength :=
                  if info.records + 1 = info.blength then
                    info.blength + info.blength
                  else info.blength })

/-!
## Deleting
-/

/-- The search loop of `my_hash_delete` and `my_hash_update`: the slot of the
record and the slot before it on the chain. -/
def findRecord (data : Nat -> HashLink) (record : Ptr) :
    Nat -> Option Nat -> Nat -> Option (Option (Option Nat × Nat))
  | 0, _, _ => none
  | fuel + 1, gpos, pos =>
      if (data pos).data = record then
        some (some (gpos, pos))
      else if (data pos).next = NO_RECORD then
        some none
      else
        findRecord data record fuel (some pos) (data pos).next

def removeLink (data : Nat -> HashLink) (gpos : Option Nat) (pos : Nat) :
    (Nat -> HashLink) × Nat :=
  match gpos with
  | some gpos =>
      (Function.update data gpos { data gpos with next := (data pos).next }, pos)
  | none =>
      if (data pos).next != NO_RECORD then
        (Function.update data pos (data (data pos).next), (data pos).next)
      else
        (data, pos)

/-- The part of `my_hash_delete` that moves the record of the last slot to the
free one. `oldBlength` is the size before the table shrank. -/
def moveLastpos (hashnr : Ptr -> UInt32) (oldBlength blength records : Nat)
    (data : Nat -> HashLink) (empty : Nat) : Option (Nat -> HashLink) :=
  let lastpos := records
  if empty = lastpos then
    some data
  else
    let lastposHashnr := hashnr (data lastpos).data
    let pos := myHashMask lastposHashnr blength records
    if pos = empty then
      some (Function.update data empty (data lastpos))
    else
      let posHashnr := hashnr (data pos).data
      let pos3 := myHashMask posHashnr blength records
      if pos ≠ pos3 then
        let data := Function.update data empty (data pos)
        let data := Function.update data pos (data lastpos)
        movelink (uint pos) empty (records + 1) data (uint pos3)
      else
        let pos2 := myHashMask lastposHashnr oldBlength (records + 1)
        if pos2 = myHashMask posHashnr oldBlength (records + 1) then
          if pos2 ≠ records then
            let data := Function.update data empty (data lastpos)
            movelink (uint lastpos) empty (records + 1) data (uint pos)
          else
            linkBehindLast (uint pos) pos (Function.update data empty (data lastpos))
        else
          linkBehindLast NO_RECORD pos (Function.update data empty (data lastpos))
where
  /-- The end of `my_hash_delete`: `pos->next` goes behind the moved record. -/
  linkBehindLast (idx pos : Nat) (data : Nat -> HashLink) : Option (Nat -> HashLink) :=
    (movelink idx (data pos).next (records + 1) data empty).map fun data =>
      Function.update data pos { data pos with next := empty }

/-- `my_hash_delete`: the return value, the table, and the record that went to
the free function. -/
def myHashDelete (hash : MyHash content) (memory : Ptr -> content) (record : Ptr) :
    Option (Nat × MyHash content × List Ptr) :=
  if hash.records = 0 then
    some (1, hash, [])
  else
    let blength := uint hash.blength
    (findRecord hash.links record (hash.records + 1) none
        (deleteBucket hash (recHashnr hash memory record))).bind
      fun found =>
        match found with
        | none => some (1, hash, [])
        | some (gpos, pos) =>
            let records := hash.records - 1
            let newBlength :=
              if records < hash.blength >>> 1 then hash.blength >>> 1
              else hash.blength
            let removed := removeLink hash.links gpos pos
            (moveLastpos (recHashnr hash memory) blength newBlength records
                removed.1 (uint removed.2)).map fun data =>
              (0,
                { hash with
                  records := records
                  blength := newBlength
                  array := myArrayPop { hash.array with buffer := data } },
                if hash.free then [record] else [])

/-!
## Updating
-/

/-- The loop of `my_hash_update` over the records with the new key: whether one
of them is another record. -/
def otherRecord (hash : MyHash content) (memory : Ptr -> content) (record : Ptr)
    (key : Bytes) (length : Nat) : Nat -> Ptr × Nat -> Option Bool
  | 0, _ => none
  | fuel + 1, (found, state) =>
      if found ≠ NULL then
        if found ≠ record then
          some true
        else
          (myHashNext hash memory key length state).bind fun next =>
            otherRecord hash memory record key length fuel next
      else
        some false

/-- The test for a duplicate in `my_hash_update`. -/
def duplicateUpdate (hash : MyHash content) (memory : Ptr -> content)
    (record : Ptr) : Option Bool :=
  if hash.unique then
    let newKey := myHashKey hash (memory record) true
    (myHashFirst hash memory newKey.1 newKey.2 0).bind fun found =>
      otherRecord hash memory record newKey.1 newKey.2 (hash.records + 1) found
  else
    some false

/-- The part of `my_hash_update` that puts the unlinked record, saved in
`orgLink`, into its new bucket. `idx` is the slot it was found in. -/
def relink (hashnr : Ptr -> UInt32) (blength records newIndex idx : Nat)
    (orgLink : HashLink) (data : Nat -> HashLink) (empty : Nat) :
    Option (Nat -> HashLink) :=
  if newIndex = empty then
    let data := if empty ≠ idx then Function.update data empty orgLink else data
    some (Function.update data empty { data empty with next := NO_RECORD })
  else
    let newPosIndex := myHashMask (hashnr (data newIndex).data) blength records
    if newIndex ≠ newPosIndex then
      (movelink newIndex (uint empty) (records + 1)
          (Function.update data empty (data newIndex)) newPosIndex).map fun data =>
        Function.update data newIndex { orgLink with next := NO_RECORD }
    else
      let data := Function.update data empty
        { orgLink with next := (data newIndex).next }
      some (Function.update data newIndex
        { data newIndex with next := uint empty })

def myHashUpdate (hash : MyHash content) (memory : Ptr -> content) (record : Ptr)
    (oldKey : Bytes) (oldKeyLength : Nat) : Option (Nat × MyHash content) :=
  (duplicateUpdate hash memory record).bind fun duplicate =>
    if duplicate then
      some (1, hash)
    else
      let blength := uint hash.blength
      let records := uint hash.records
      let idx := updateBucket hash (hashCalc hash oldKey
        (if oldKeyLength != 0 then oldKeyLength else hash.keyLength))
      let newIndex := updateBucket hash (recHashnr hash memory record)
      if idx = newIndex then
        some (0, hash)
      else
        (findRecord hash.links record (records + 1) none idx).bind fun found =>
          match found with
          | none => some (1, hash)
          | some (previous, pos) =>
              let removed := removeLink hash.links previous pos
              (relink (recHashnr hash memory) blength records newIndex pos
                  (hash.links pos) removed.1 removed.2).map fun data =>
                (0, { hash with array := { hash.array with buffer := data } })

/-!
## The other operations
-/

def myHashElement (hash : MyHash content) (idx : Nat) : Ptr :=
  if idx < hash.records then (hash.links idx).data else NULL

def myHashReplace (hash : MyHash content) (currentRecord : Nat) (newRow : Ptr) :
    MyHash content :=
  if currentRecord != NO_RECORD then
    { hash with
      array := { hash.array with
        buffer := Function.update hash.links currentRecord
          { hash.links currentRecord with data := newRow } } }
  else
    hash

/-- `my_hash_free_elements`: the table, and the records that went to the free
function. -/
def myHashFreeElements (hash : MyHash content) : MyHash content × List Ptr :=
  ({ hash with records := 0 },
    if hash.free then
      (List.range hash.records).map fun i => (hash.links i).data
    else [])

def myHashReset (hash : MyHash content) : MyHash content × List Ptr :=
  let freed := myHashFreeElements hash
  ({ freed.1 with array := myArrayReset freed.1.array, blength := 1 }, freed.2)

/-- `my_hash_init`, with the array it gets from `my_array_init`. -/
def myHashInit (hashFunction : Bytes -> Nat -> UInt32)
    (strnncoll : Bytes -> Nat -> Bytes -> Nat -> Int32) (keyOffset keyLength : Nat)
    (getKey : Option (content -> Bool -> Bytes × Nat)) (freeElement : Bool)
    (flags : Nat) (buffer : Nat -> HashLink) : MyHash content where
  records := 0
  keyOffset := keyOffset
  keyLength := keyLength
  blength := 1
  getKey := getKey
  free := freeElement
  flags := flags
  hashFunction := hashFunction
  strnncoll := strnncoll
  array := { buffer := buffer, elements := 0 }

end Operations

end DynHash
end MyLibs
