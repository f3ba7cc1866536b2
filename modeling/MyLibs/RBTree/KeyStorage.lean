import MyLibs.Foundation.ByteMemory
import MyLibs.RBTree.Accounts

/-!
# Where keys are stored

The bytes `rbtree_insert` writes into a new element, and where `ELEMENT_KEY` leads
afterwards. An element is `left`, `right`, the bit fields `count` and `colour`, and
then the key or a pointer to it.
-/

namespace MyLibs
namespace RBTree

open Foundation

variable {κ : Type} {tree tree' : RbTree κ} {memory : ByteMemory} {element key keySize : Nat}

def ELEMENT_KEY (tree : RbTree κ) (memory : ByteMemory) (element : Ptr) : Ptr :=
  if tree.offset ≠ 0 then
    element + tree.offset
  else
    memory.loadNumber (element + sizeofElement) sizeofPtr

/-- `rbtree_insert` from `if (!tree->offset)` on: the key, or a pointer to it, goes
into the element. -/
def storeKey (tree : RbTree κ) (memory : ByteMemory) (element key : Ptr) (keySize : Nat) :
    ByteMemory :=
  let keySize := uint (keySize + tree.size)
  if tree.offset = 0 then
    if keySize = sizeofPtr then
      memory.storeNumber (element + sizeofElement) sizeofPtr key
    else
      let memory := memory.storeNumber (element + sizeofElement) sizeofPtr
        (element + sizeofElement + sizeofPtr)
      memory.copy (memory.loadNumber (element + sizeofElement) sizeofPtr) key
        (sizetSub keySize sizeofPtr)
  else
    memory.copy (element + tree.offset) key keySize

/-- Where `count`, in the lower 31 bits, and `colour`, in the next one, are. -/
def countAt (element : Ptr) : Ptr :=
  element + sizeofPtr + sizeofPtr

/-- `element->count = count;` -/
def setCount (memory : ByteMemory) (element : Ptr) (count : Nat) : ByteMemory :=
  let old := memory.loadNumber (countAt element) sizeofPtr
  memory.storeNumber (countAt element) sizeofPtr (old / 2 ^ 31 * 2 ^ 31 + count)

/-- `leaf->colour = RED;` -/
def setRed (memory : ByteMemory) (element : Ptr) : ByteMemory :=
  let old := memory.loadNumber (countAt element) sizeofPtr
  memory.storeNumber (countAt element) sizeofPtr (old / 2 ^ 32 * 2 ^ 32 + old % 2 ^ 31)

def fillElement (tree : RbTree κ) (memory : ByteMemory) (element key : Ptr) (keySize : Nat) :
    ByteMemory :=
  let memory := memory.storeNumber (element + sizeofPtr) sizeofPtr tree.nodes.nullElement
  let memory := memory.storeNumber element sizeofPtr tree.nodes.nullElement
  let memory := storeKey tree memory element key keySize
  setRed (setCount memory element 1) element

/-- The block of a new element, and a key of the caller of `length` bytes. -/
structure Apart (element blockSize key length : Nat) : Prop where
  block_le : element + blockSize <= 2 ^ 64
  key_lt : key < 2 ^ 64
  apart : key + length <= element ∨ element + blockSize <= key

/-- `p` leads to a copy, within the block of the element, of the first `length`
bytes of the key. -/
structure IsCopy (memory memory' : ByteMemory) (element blockSize key length p : Nat) : Prop where
  start_le : element <= p
  end_le : p + length <= element + blockSize
  bytes_eq : forall i, i < length -> memory'.byteAt (p + i) = memory.byteAt (key + i)

/-- What the comment at the head of `my_rbtree.c` promises of a new element. -/
def KeysStored (tree : RbTree κ) (size : Int) (keySize : Nat) : Prop :=
  forall memory element key, Apart element (allocSize tree keySize) key (size.toNat + keySize) ->
    ByteMemory.WroteWithin memory (fillElement tree memory element key keySize) element
        (allocSize tree keySize) ∧
      if size < 0 ∨ size = 0 ∧ keySize = 0 then
        ELEMENT_KEY tree (fillElement tree memory element key keySize) element = key
      else
        IsCopy memory (fillElement tree memory element key keySize) element
          (allocSize tree keySize) key (size.toNat + keySize)
          (ELEMENT_KEY tree (fillElement tree memory element key keySize) element)

structure Storing (tree : RbTree κ) (keySize : Nat) : Prop where
  small : sizeofElement + keySize + tree.size < 2 ^ 32
  offset_cases : tree.offset = sizeofElement ∨ tree.offset = 0 ∧ sizeofPtr <= tree.size

theorem Storing.allocSize_eq (h : Storing tree keySize) :
    allocSize tree keySize = sizeofElement + keySize + tree.size :=
  uint_of_lt h.small

theorem Storing.length_eq (h : Storing tree keySize) :
    uint (keySize + tree.size) = keySize + tree.size := by
  have hsmall := h.small
  exact uint_of_lt (by omega)

/-!
## The bytes written
-/

def linked (tree : RbTree κ) (memory : ByteMemory) (element : Ptr) : ByteMemory :=
  (memory.storeNumber (element + sizeofPtr) sizeofPtr tree.nodes.nullElement).storeNumber element
    sizeofPtr tree.nodes.nullElement

theorem fillElement_byteAt {b : Ptr} (hb : element + sizeofElement <= b) :
    (fillElement tree memory element key keySize).byteAt b =
      (storeKey tree (linked tree memory element) element key keySize).byteAt b := by
  have hcount : countAt element + sizeofPtr <= b := hb
  rw [fillElement, setRed, setCount, ByteMemory.storeNumber,
    ByteMemory.store_outside (Or.inr hcount), ByteMemory.storeNumber,
    ByteMemory.store_outside (Or.inr hcount)]
  rfl

/-- The key of the caller is not overwritten before it is copied. -/
theorem linked_byteAt {blockSize length i : Nat} (h : Apart element blockSize key length)
    (hblock : sizeofElement <= blockSize) (hi : i < length) :
    (linked tree memory element).byteAt (key + i) = memory.byteAt (key + i) := by
  have hapart := h.apart
  have hpointer : sizeofPtr = 8 := rfl
  have helement : sizeofElement = 24 := rfl
  rw [linked, ByteMemory.storeNumber, ByteMemory.store_outside (by omega),
    ByteMemory.storeNumber, ByteMemory.store_outside (by omega)]

theorem storeKey_inline (hoffset : tree.offset = sizeofElement) :
    storeKey tree memory element key keySize =
      memory.copy (element + sizeofElement) key (uint (keySize + tree.size)) := by
  have hne : tree.offset ≠ 0 := by
    rw [hoffset]
    decide
  rw [storeKey, if_neg hne, hoffset]

theorem storeKey_pointer (hoffset : tree.offset = 0)
    (hlength : uint (keySize + tree.size) = sizeofPtr) :
    storeKey tree memory element key keySize =
      memory.storeNumber (element + sizeofElement) sizeofPtr key := by
  rw [storeKey, if_pos hoffset, if_pos hlength]

theorem storeKey_behind (hoffset : tree.offset = 0)
    (hlength : uint (keySize + tree.size) ≠ sizeofPtr)
    (hend : element + sizeofElement + sizeofPtr < 2 ^ 64) :
    storeKey tree memory element key keySize =
      (memory.storeNumber (element + sizeofElement) sizeofPtr
          (element + sizeofElement + sizeofPtr)).copy
        (element + sizeofElement + sizeofPtr) key
        (sizetSub (uint (keySize + tree.size)) sizeofPtr) := by
  rw [storeKey, if_pos hoffset, if_neg hlength]
  simp only [ByteMemory.loadNumber_storeNumber (show _ < 256 ^ sizeofPtr from hend)]

theorem fillElement_within (h : Storing tree keySize)
    (hend : element + allocSize tree keySize <= 2 ^ 64) :
    ByteMemory.WroteWithin memory (fillElement tree memory element key keySize) element
      (allocSize tree keySize) := by
  have hpointer : sizeofPtr = 8 := rfl
  have helement : sizeofElement = 24 := rfl
  have hsmall := h.small
  rw [h.allocSize_eq] at hend ⊢
  have hlinked : ByteMemory.WroteWithin memory (linked tree memory element) element
      (sizeofElement + keySize + tree.size) :=
    ((ByteMemory.WroteWithin.refl memory element _).store (by omega) (by omega)).store
      (Nat.le_refl _) (by omega)
  have hkey : ByteMemory.WroteWithin memory
      (storeKey tree (linked tree memory element) element key keySize) element
      (sizeofElement + keySize + tree.size) := by
    rcases h.offset_cases with hoffset | ⟨hoffset, hsize⟩
    · rw [storeKey_inline hoffset, h.length_eq]
      exact hlinked.store (by omega) (by omega)
    · by_cases hlength : uint (keySize + tree.size) = sizeofPtr
      · rw [storeKey_pointer hoffset hlength]
        exact hlinked.store (by omega) (by omega)
      · have hmore : uint (keySize + tree.size) ≠ sizeofPtr := hlength
        rw [h.length_eq] at hmore
        have hroom : element + sizeofElement + sizeofPtr < 2 ^ 64 := by omega
        have hcopied : sizetSub (keySize + tree.size) sizeofPtr = keySize + tree.size - sizeofPtr :=
          sizetSub_of_le (by omega) (by omega)
        rw [storeKey_behind hoffset hlength hroom, h.length_eq, hcopied]
        exact (hlinked.store (by omega) (by omega)).store (by omega) (by omega)
  have hstart : element <= countAt element := Nat.le_add_right element (sizeofPtr + sizeofPtr)
  have hfits : element + sizeofElement <= element + (sizeofElement + keySize + tree.size) :=
    Nat.add_le_add_left (Nat.add_assoc sizeofElement _ _ ▸ Nat.le_add_right ..) element
  exact (hkey.store hstart hfits).store hstart hfits

/-!
## Where `ELEMENT_KEY` leads
-/

theorem elementKey_inline (hoffset : tree.offset = sizeofElement) (memory : ByteMemory) :
    ELEMENT_KEY tree memory element = element + sizeofElement := by
  have hne : tree.offset ≠ 0 := by
    rw [hoffset]
    decide
  rw [ELEMENT_KEY, if_pos hne, hoffset]

theorem elementKey_stored (hoffset : tree.offset = 0) :
    ELEMENT_KEY tree (fillElement tree memory element key keySize) element =
      (storeKey tree (linked tree memory element) element key keySize).loadNumber
        (element + sizeofElement) sizeofPtr := by
  rw [ELEMENT_KEY, if_neg (not_not_intro hoffset)]
  exact ByteMemory.loadNumber_congr fun i _ => fillElement_byteAt (Nat.le_add_right _ i)

theorem elementKey_pointer (hoffset : tree.offset = 0)
    (hlength : uint (keySize + tree.size) = sizeofPtr) (hkey : key < 2 ^ 64) :
    ELEMENT_KEY tree (fillElement tree memory element key keySize) element = key := by
  rw [elementKey_stored hoffset, storeKey_pointer hoffset hlength]
  exact ByteMemory.loadNumber_storeNumber hkey

theorem elementKey_behind (hoffset : tree.offset = 0)
    (hlength : uint (keySize + tree.size) ≠ sizeofPtr)
    (hend : element + sizeofElement + sizeofPtr < 2 ^ 64) :
    ELEMENT_KEY tree (fillElement tree memory element key keySize) element =
      element + sizeofElement + sizeofPtr := by
  rw [elementKey_stored hoffset, storeKey_behind hoffset hlength hend, ByteMemory.copy,
    ByteMemory.loadNumber_store (Or.inl (Nat.le_refl _))]
  exact ByteMemory.loadNumber_storeNumber hend

theorem isCopy_inline (h : Storing tree keySize) (hoffset : tree.offset = sizeofElement)
    (hapart : Apart element (allocSize tree keySize) key (tree.size + keySize)) :
    IsCopy memory (fillElement tree memory element key keySize) element (allocSize tree keySize)
      key (tree.size + keySize)
      (ELEMENT_KEY tree (fillElement tree memory element key keySize) element) := by
  have hlength : keySize + tree.size = tree.size + keySize := Nat.add_comm ..
  rw [elementKey_inline hoffset]
  refine ⟨Nat.le_add_right _ _, ?_, fun i hi => ?_⟩
  · rw [h.allocSize_eq]
    omega
  · have hblock : sizeofElement <= allocSize tree keySize := by
      rw [h.allocSize_eq]
      omega
    rw [fillElement_byteAt (Nat.le_add_right _ i), storeKey_inline hoffset, h.length_eq, hlength,
      ByteMemory.copy, ByteMemory.store_inside hi]
    exact linked_byteAt hapart hblock hi

theorem isCopy_behind (h : Storing tree keySize) {length : Nat} (hoffset : tree.offset = 0)
    (hsize : length + sizeofPtr = keySize + tree.size) (hpos : 0 < length)
    (hapart : Apart element (allocSize tree keySize) key length) :
    IsCopy memory (fillElement tree memory element key keySize) element (allocSize tree keySize)
      key length (ELEMENT_KEY tree (fillElement tree memory element key keySize) element) := by
  have hsmall := h.small
  have hpointer : sizeofPtr = 8 := rfl
  have helement : sizeofElement = 24 := rfl
  have hend := hapart.block_le
  have hapart' := hapart.apart
  have hblock : allocSize tree keySize =
      element + sizeofElement + sizeofPtr + length - element := by
    rw [h.allocSize_eq]
    omega
  have hlength : uint (keySize + tree.size) ≠ sizeofPtr := by
    rw [h.length_eq]
    omega
  have hcopied : sizetSub (uint (keySize + tree.size)) sizeofPtr = length := by
    rw [h.length_eq, sizetSub_of_le (by omega) (by omega)]
    omega
  have hroom : element + sizeofElement + sizeofPtr < 2 ^ 64 := by omega
  rw [elementKey_behind hoffset hlength hroom]
  refine ⟨by omega, by omega, fun i hi => ?_⟩
  have hbehind : element + sizeofElement <= element + sizeofElement + sizeofPtr + i := by omega
  have hsource : key + i < element + sizeofElement ∨
      element + sizeofElement + sizeofPtr <= key + i := by omega
  rw [fillElement_byteAt hbehind, storeKey_behind hoffset hlength hroom, hcopied,
    ByteMemory.copy, ByteMemory.store_inside hi, ByteMemory.storeNumber,
    ByteMemory.store_outside hsource]
  exact linked_byteAt hapart (by omega) hi

/-!
## Reachable trees
-/

theorem InsertStep.sameStorage {malloc : Malloc κ} {key : κ} {t t' : ColourTree (Node κ)} {p : Ptr}
    (h : InsertStep malloc key keySize tree t p tree' t') :
    tree'.offset = tree.offset ∧ tree'.size = tree.size := by
  induction h with
  | met hu hequal hplaces => exact ⟨rfl, rfl⟩
  | full habsent hroom hfull => exact ⟨rfl, rfl⟩
  | added habsent hroom hp hne ht ht' => exact ⟨rfl, rfl⟩
  | restarted habsent hexceeds hfewer hagain ih => exact ih

theorem Valid.sameStorage {t : ColourTree (Node κ)} {call : Call κ} {answer : Answer κ}
    (h : Valid tree t) (hcompare : TotalPreorder tree.compare) (hallowed : call.Allowed tree)
    (hcall : call.apply tree = .ok (answer, tree')) :
    tree'.offset = tree.offset ∧ tree'.size = tree.size := by
  rcases Call.step h hcompare hallowed hcall with ⟨t', _, _, hstep⟩
  cases hstep with
  | inserted hstep => exact hstep.sameStorage
  | deleted hstep =>
      cases hstep with
      | kept hkept => exact ⟨rfl, rfl⟩
      | removed hdelete hequal ht ht' => exact ⟨rfl, rfl⟩
  | reset => exact ⟨rfl, rfl⟩
  | searched => exact ⟨rfl, rfl⟩

variable {settings : Settings κ} {calls : List (Call κ)}

/-- The way to store keys is chosen by `rbtree_init`, once and for all. -/
theorem Run.sameStorage (h : settings.Proper)
    (hrun : Run Call.Allowed settings.start calls tree) :
    tree.offset = settings.start.offset ∧ tree.size = settings.start.size := by
  induction hrun with
  | nil => exact ⟨rfl, rfl⟩
  | snoc hrun hallowed hcall ih =>
      rcases hrun.valid h with ⟨hsettings, t, hvalid⟩
      have hcompare : TotalPreorder settings.start.compare := h.compare
      rw [← hsettings.compare_eq] at hcompare
      rcases hvalid.sameStorage hcompare hallowed hcall with ⟨hoffset, hsize⟩
      exact ⟨hoffset.trans ih.left, hsize.trans ih.right⟩

theorem Settings.storage_cases (settings : Settings κ)
    (hsmall : settings.size.toNat + sizeofPtr < 2 ^ 32) :
    (0 <= settings.size ∧ settings.free = false ∧ settings.start.offset = sizeofElement ∧
        settings.start.size = settings.size.toNat) ∨
      ((settings.size = 0 -> settings.free = true) ∧ settings.start.offset = 0 ∧
        settings.start.size = settings.size.toNat + sizeofPtr) := by
  by_cases hin : (!settings.free && decide (0 <= settings.size) &&
      (decide (settings.size <= sizeofPtr) || decide (settings.size % sizeofPtr ≠ 0))) = true
  · have hoffset : settings.start.offset = sizeofElement := if_pos hin
    have hsize : settings.start.size = settings.size.toNat := if_pos hin
    rw [Bool.and_eq_true, Bool.and_eq_true, Bool.not_eq_true', decide_eq_true_eq] at hin
    exact Or.inl ⟨hin.left.right, hin.left.left, hoffset, hsize⟩
  · have hoffset : settings.start.offset = 0 := if_neg hin
    have hsize : settings.start.size = uint (settings.size.toNat + sizeofPtr) := if_neg hin
    rw [uint_of_lt hsmall] at hsize
    refine Or.inr ⟨fun hzero => ?_, hoffset, hsize⟩
    cases hfree : settings.free with
    | true => rfl
    | false =>
        rw [hzero, hfree] at hin
        exact absurd rfl hin

theorem keysStored_inElement {size : Int} (hzero : 0 <= size)
    (hoffset : tree.offset = sizeofElement) (hsize : tree.size = size.toNat)
    (hsmall : sizeofElement + keySize + tree.size < 2 ^ 32) :
    KeysStored tree size keySize <-> ¬(size = 0 ∧ keySize = 0) := by
  have hstoring : Storing tree keySize := ⟨hsmall, Or.inl hoffset⟩
  constructor
  · intro hstored hnothing
    have hblock : allocSize tree keySize = sizeofElement := by
      rw [hstoring.allocSize_eq, hsize, hnothing.left, hnothing.right]
      rfl
    have hapart : Apart (2 ^ 32) (allocSize tree keySize) (2 ^ 34)
        (size.toNat + keySize) := by
      rw [hblock]
      exact ⟨by decide, by decide, Or.inr (by decide)⟩
    have hkey := (hstored ⟨fun _ => 0, []⟩ _ _ hapart).right
    rw [if_pos (Or.inr hnothing), elementKey_inline hoffset] at hkey
    exact absurd hkey (by decide)
  · intro hsome memory element key hapart
    refine ⟨fillElement_within hstoring hapart.block_le, ?_⟩
    have hcopy : ¬(size < 0 ∨ size = 0 ∧ keySize = 0) :=
      not_or_intro (Int.not_lt.mpr hzero) hsome
    rw [if_neg hcopy, ← hsize]
    rw [← hsize] at hapart
    exact isCopy_inline hstoring hoffset hapart

theorem keysStored_behind {size : Int} (hoffset : tree.offset = 0)
    (hsize : tree.size = size.toNat + sizeofPtr)
    (hsmall : sizeofElement + keySize + tree.size < 2 ^ 32) :
    KeysStored tree size keySize <-> ¬(size < 0 ∧ keySize ≠ 0) := by
  have hle : sizeofPtr <= tree.size := by
    rw [hsize]
    exact Nat.le_add_left ..
  have hstoring : Storing tree keySize := ⟨hsmall, Or.inr ⟨hoffset, hle⟩⟩
  have hpointer : sizeofPtr = 8 := rfl
  have helement : sizeofElement = 24 := rfl
  constructor
  · intro hstored hlong
    have hnone : size.toNat = 0 := Int.toNat_of_nonpos (Int.le_of_lt hlong.left)
    have hlength : uint (keySize + tree.size) ≠ sizeofPtr := by
      rw [hstoring.length_eq, hsize]
      omega
    have hapart : Apart (2 ^ 32) (allocSize tree keySize) (2 ^ 34)
        (size.toNat + keySize) := by
      rw [hstoring.allocSize_eq]
      exact ⟨by omega, by omega, Or.inr (by omega)⟩
    have hkey := (hstored ⟨fun _ => 0, []⟩ _ _ hapart).right
    rw [if_pos (Or.inl hlong.left), elementKey_behind hoffset hlength (by decide)] at hkey
    exact absurd hkey (by decide)
  · intro hshort memory element key hapart
    refine ⟨fillElement_within hstoring hapart.block_le, ?_⟩
    split
    next hsaved =>
      have hlength : uint (keySize + tree.size) = sizeofPtr := by
        rw [hstoring.length_eq, hsize]
        omega
      exact elementKey_pointer hoffset hlength hapart.key_lt
    next hcopied =>
      exact isCopy_behind hstoring hoffset (by omega) (by omega) hapart

/-- Every key is stored as promised exactly when it has no length where only
pointers are to be saved, and there is a free function where nothing is to be
copied. -/
theorem keys_stored_as_promised_iff (h : settings.Proper)
    (hrun : Run Call.Allowed settings.start calls tree)
    (hsmall : sizeofElement + keySize + settings.size.toNat + sizeofPtr < 2 ^ 32) :
    KeysStored tree settings.size keySize <->
      ¬(settings.size < 0 ∧ keySize ≠ 0) ∧
        ¬(settings.size = 0 ∧ keySize = 0 ∧ settings.free = false) := by
  rcases hrun.sameStorage h with ⟨hoffset, hsize⟩
  rcases settings.storage_cases (by omega) with
    ⟨hzero, hfree, hoffset', hsize'⟩ | ⟨hfree, hoffset', hsize'⟩
  · rw [keysStored_inElement hzero (hoffset.trans hoffset') (hsize.trans hsize') (by omega), hfree]
    have hsome : ¬settings.size < 0 := Int.not_lt.mpr hzero
    simp only [hsome, false_and, not_false_iff, true_and, and_true]
  · rw [keysStored_behind (hoffset.trans hoffset') (hsize.trans hsize') (by omega)]
    refine ⟨fun hshort => ⟨hshort, fun hnothing => ?_⟩, And.left⟩
    rw [hfree hnothing.left] at hnothing
    exact absurd hnothing.right.right (by decide)

theorem keys_stored_as_promised_integers : exists tree,
    Run Call.Allowed integerSettings.start shortRun tree ∧ KeysStored tree 8 5 := by
  rcases shortRun_run with ⟨tree, hrun⟩
  exact ⟨tree, hrun, (keys_stored_as_promised_iff integerSettings_proper hrun (by decide)).mpr
    ⟨by decide, by decide⟩⟩

/-- A tree of pointers, given a key of five bytes, and one without sizes and
without a free function: neither leads to the key of the caller. -/
theorem keys_not_stored_as_promised :
    ¬KeysStored { integerSettings with size := -1 }.start (-1) 5 ∧
      ¬KeysStored { integerSettings with size := 0 }.start 0 0 := by
  constructor
  · intro hstored
    have hshort : ¬((-1 : Int) < 0 ∧ 5 ≠ 0) :=
      (keysStored_behind rfl rfl (by decide)).mp hstored
    exact hshort (by decide)
  · intro hstored
    have hsome : ¬((0 : Int) = 0 ∧ 0 = 0) :=
      (keysStored_inElement (by decide) rfl rfl (by decide)).mp hstored
    exact hsome (by decide)

end RBTree
end MyLibs
