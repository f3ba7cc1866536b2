import MyLibs.Malloc.Model

/-!
# How large a returned block is

A block that `fixup_null_alloc` finds has one byte, which is enough for the
length 0. `my_calloc` passes on the length 0 also for a product that is a
multiple of 2^64.
-/

namespace MyLibs
namespace Malloc

variable {heap : Type _} {lib : Allocator heap} {setup : Setup heap}

/-- What the C library says about `malloc` and `calloc`. -/
structure Allocator.Lawful (lib : Allocator heap) : Prop where
  malloc_length : forall {length : Nat} {memory memory' : heap} {data : Block},
    lib.malloc length memory = (some data, memory') -> data.length = length
  calloc_zeroed : forall {length value : Nat} {memory memory' : heap} {data : Block},
    lib.calloc length value memory = (some data, memory') ->
      data = List.replicate (length * value) 0
  calloc_overflow : forall {length value : Nat} (memory : heap),
    2 ^ 64 <= length * value -> (lib.calloc length value memory).1 = none

def KeepsSize (outcome : Outcome heap) (size : Nat) : Prop :=
  forall data memory, outcome = Outcome.returns (some data) memory -> size <= data.length

theorem KeepsSize.of_block {data : Block} {memory : heap} {size : Nat}
    (hsize : size <= data.length) :
    KeepsSize (Outcome.returns (some data) memory) size := by
  intro data' memory' h
  cases h
  exact hsize

/-!
## The last attempt
-/

theorem callHandler_ne_block (memory memory' : heap) (data : Block) :
    callHandler setup memory ≠ Outcome.returns (some data) memory' := by
  unfold callHandler
  intro h
  split at h
  · cases h
  · split at h
    · cases h
    · cases h

/-- The last attempt finds a block only for the length 0, the block of
`malloc(1)`. -/
theorem fixupNullAlloc_block_iff (hsbrk : setup.haveSbrk = true) {length : Nat}
    {memory memory' : heap} {data : Block} :
    fixupNullAlloc lib setup length memory = Outcome.returns (some data) memory' <->
      length = 0 ∧ lib.malloc 1 memory = (some data, memory') := by
  rw [fixupNullAlloc, if_pos hsbrk]
  cases length with
  | zero =>
      rw [if_pos rfl]
      rcases lib.malloc 1 memory with ⟨found, memory₁⟩
      cases found with
      | none =>
          constructor
          · intro h
            exact absurd h (callHandler_ne_block memory₁ memory' data)
          · intro h
            cases h.right
      | some block =>
          constructor
          · intro h
            cases h
            exact ⟨rfl, rfl⟩
          · intro h
            cases h.right
            rfl
  | succ length =>
      rw [if_neg (Nat.succ_ne_zero length)]
      constructor
      · intro h
        exact absurd h (callHandler_ne_block memory memory' data)
      · intro h
        cases h.left

theorem fixupNullAlloc_without_sbrk (hsbrk : setup.haveSbrk = false) (length : Nat)
    (memory : heap) :
    fixupNullAlloc lib setup length memory = Outcome.returns none memory := by
  rw [fixupNullAlloc, hsbrk]
  rfl

theorem fixupNullAlloc_keepsSize (length : Nat) (memory : heap) :
    KeepsSize (fixupNullAlloc lib setup length memory) length := by
  intro data memory' h
  cases hsbrk : setup.haveSbrk with
  | false =>
      rw [fixupNullAlloc_without_sbrk hsbrk] at h
      cases h
  | true =>
      have hzero := ((fixupNullAlloc_block_iff hsbrk).mp h).left
      rw [hzero]
      exact Nat.zero_le data.length

/-!
## The three functions
-/

theorem myMalloc_keepsSize (hlawful : lib.Lawful) (length : Nat) (memory : heap) :
    KeepsSize (myMalloc lib setup length memory) length := by
  unfold myMalloc
  split
  · rename_i data memory' hmalloc
    exact KeepsSize.of_block (Nat.le_of_eq (hlawful.malloc_length hmalloc).symm)
  · exact fixupNullAlloc_keepsSize length _

theorem myRealloc_keepsSize (hlawful : lib.Lawful)
    (hrealloc : forall {block data : Block} {length : Nat} {memory memory' : heap},
      lib.realloc block length memory = (some data, memory') -> data.length = length)
    (data : Option Block) (length : Nat) (memory : heap) :
    KeepsSize (myRealloc lib setup data length memory) length := by
  unfold myRealloc
  cases data with
  | none =>
      intro data memory' h
      injection h with hdata hmemory
      have hmalloc : lib.malloc length memory = (some data, memory') :=
        Prod.ext hdata hmemory
      exact Nat.le_of_eq (hlawful.malloc_length hmalloc).symm
  | some block =>
      simp only
      split
      · rename_i data memory' hfound
        exact KeepsSize.of_block (Nat.le_of_eq (hrealloc hfound).symm)
      · exact fixupNullAlloc_keepsSize length _

/-- The run that goes wrong: the product wraps to 0, and there is room for one
byte. -/
def WrapsToZero (lib : Allocator heap) (length value : Nat) (memory : heap) : Prop :=
  length * value ≠ 0 ∧ sizet (length * value) = 0 ∧
    (lib.malloc 1 (lib.calloc length value memory).2).1.isSome = true

theorem sizet_product_zero_overflows {length value : Nat} (hpos : length * value ≠ 0)
    (hwraps : sizet (length * value) = 0) : 2 ^ 64 <= length * value :=
  Nat.le_of_dvd (Nat.pos_of_ne_zero hpos) (Nat.dvd_of_mod_eq_zero hwraps)

/-- `my_calloc` returns a smaller block in that run only. -/
theorem myCalloc_keepsSize_iff (hlawful : lib.Lawful) (hsbrk : setup.haveSbrk = true)
    (length value : Nat) (memory : heap) :
    KeepsSize (myCalloc lib setup length value memory) (length * value) <->
      ¬ WrapsToZero lib length value memory := by
  constructor
  · intro hkeeps hwraps
    rcases hwraps with ⟨hpos, hwrap, hroom⟩
    have hlarge := sizet_product_zero_overflows hpos hwrap
    have hnull := hlawful.calloc_overflow memory hlarge
    rcases Option.isSome_iff_exists.mp hroom with ⟨data, hdata⟩
    have hmalloc : lib.malloc 1 (lib.calloc length value memory).2 =
        (some data, (lib.malloc 1 (lib.calloc length value memory).2).2) :=
      Prod.ext hdata rfl
    have hcall : myCalloc lib setup length value memory =
        Outcome.returns (some data) (lib.malloc 1 (lib.calloc length value memory).2).2 := by
      have hcalloc : lib.calloc length value memory =
          (none, (lib.calloc length value memory).2) :=
        Prod.ext hnull rfl
      rw [myCalloc, hcalloc]
      exact (fixupNullAlloc_block_iff hsbrk).mpr ⟨hwrap, hmalloc⟩
    have hsize := hkeeps data _ hcall
    rw [hlawful.malloc_length hmalloc] at hsize
    omega
  · intro hfits data memory' h
    unfold myCalloc at h
    split at h
    · rename_i found memory₁ hcalloc
      cases h
      have hzeroed := hlawful.calloc_zeroed hcalloc
      rw [hzeroed]
      exact Nat.le_of_eq List.length_replicate.symm
    · rename_i memory₁ hcalloc
      rcases (fixupNullAlloc_block_iff hsbrk).mp h with ⟨hwrap, hmalloc⟩
      rcases Nat.eq_zero_or_pos (length * value) with hzero | hpos
      · rw [hzero]
        exact Nat.zero_le data.length
      · have hroom : (lib.malloc 1 (lib.calloc length value memory).2).1.isSome = true := by
          rw [hcalloc, hmalloc]
          rfl
        exact absurd ⟨Nat.ne_of_gt hpos, hwrap, hroom⟩ hfits

theorem myCalloc_keepsSize_without_sbrk (hlawful : lib.Lawful)
    (hsbrk : setup.haveSbrk = false) (length value : Nat) (memory : heap) :
    KeepsSize (myCalloc lib setup length value memory) (length * value) := by
  unfold myCalloc
  split
  · rename_i data memory' hcalloc
    apply KeepsSize.of_block
    rw [hlawful.calloc_zeroed hcalloc]
    exact Nat.le_of_eq List.length_replicate.symm
  · rw [fixupNullAlloc_without_sbrk hsbrk]
    intro data memory' h
    cases h

/-!
## A heap with little room
-/

def limited : Allocator Nat where
  malloc length room :=
    if length <= room then (some (List.replicate length 0), room - length)
    else (none, room)
  calloc length value room :=
    if length * value < 2 ^ 64 ∧ length * value <= room then
      (some (List.replicate (length * value) 0), room - length * value)
    else (none, room)
  realloc block length room :=
    if length <= room + block.length then
      (some (block.take length ++ List.replicate (length - block.length) 0),
        room + block.length - length)
    else (none, room)

theorem limited_lawful : limited.Lawful where
  malloc_length := by
    intro length memory memory' data h
    simp only [limited] at h
    split at h
    · cases h
      exact List.length_replicate
    · cases h
  calloc_zeroed := by
    intro length value memory memory' data h
    simp only [limited] at h
    split at h
    · cases h
      rfl
    · cases h
  calloc_overflow := by
    intro length value memory h
    have hnull : ¬ (length * value < 2 ^ 64 ∧ length * value <= memory) := by
      intro hfits
      exact Nat.not_lt_of_le h hfits.left
    simp only [limited, if_neg hnull]

/-- A program with `HAVE_SBRK` that has not set a handler. -/
def withoutHandler : Setup Nat where
  haveSbrk := true
  handler := none

theorem wrapsToZero_limited {length value room : Nat} (hpos : length * value ≠ 0)
    (hwraps : sizet (length * value) = 0) (hroom : 1 <= room) :
    WrapsToZero limited length value room := by
  have hlarge := sizet_product_zero_overflows hpos hwraps
  have hnull : ¬ (length * value < 2 ^ 64 ∧ length * value <= room) := by
    intro hfits
    exact Nat.not_lt_of_le hlarge hfits.left
  constructor
  · exact hpos
  · constructor
    · exact hwraps
    · simp only [limited, if_neg hnull, if_pos hroom, Option.isSome_some]

/-- `my_calloc` keeps its promise with every C library exactly for the arguments
whose product is 0 or not a multiple of 2^64. -/
theorem myCalloc_large_enough_iff (length value : Nat) :
    (forall (heap : Type) (lib : Allocator heap) (setup : Setup heap) (memory : heap),
        lib.Lawful -> setup.haveSbrk = true ->
          KeepsSize (myCalloc lib setup length value memory) (length * value)) <->
      (length * value = 0 ∨ ¬ 2 ^ 64 ∣ length * value) := by
  constructor
  · intro hkeeps
    rcases Nat.eq_zero_or_pos (length * value) with hzero | hpos
    · exact Or.inl hzero
    · right
      intro hdvd
      have hne := Nat.ne_of_gt hpos
      have hwraps := wrapsToZero_limited hne (Nat.mod_eq_zero_of_dvd hdvd) (Nat.le_refl 1)
      have hsize := hkeeps Nat limited withoutHandler 1 limited_lawful rfl
      exact (myCalloc_keepsSize_iff limited_lawful rfl length value 1).mp hsize hwraps
  · intro hcondition heap lib setup memory hlawful hsbrk
    rw [myCalloc_keepsSize_iff hlawful hsbrk]
    intro hwraps
    rcases hwraps with ⟨hpos, hwrap, _⟩
    rcases hcondition with hzero | hdvd
    · exact hpos hzero
    · exact hdvd (Nat.dvd_of_mod_eq_zero hwrap)

/-- Asked for 2^32 times 2^32 bytes, `my_calloc` hands out one byte. -/
theorem myCalloc_one_byte :
    limited.Lawful ∧
      myCalloc limited withoutHandler (2 ^ 32) (2 ^ 32) 4096 =
        Outcome.returns (some [0]) 4095 ∧
      ¬ KeepsSize (myCalloc limited withoutHandler (2 ^ 32) (2 ^ 32) 4096)
        (2 ^ 32 * 2 ^ 32) := by
  have hcall : myCalloc limited withoutHandler (2 ^ 32) (2 ^ 32) 4096 =
      Outcome.returns (some [0]) 4095 := rfl
  constructor
  · exact limited_lawful
  · constructor
    · exact hcall
    · intro hkeeps
      have hsize := hkeeps [0] 4095 hcall
      exact absurd hsize (by decide)

end Malloc
end MyLibs
