import Mathlib.Data.Nat.Bitwise
import MyLibs.DynHash.Model

/-!
# Growing one bucket at a time

The table with `n` records has `n` buckets. `blength` is the power of two above
`n`; a hash value whose low bits name a bucket that does not exist yet falls
back to one bit less. One more record splits one bucket, `n - blength / 2`, in
two.
-/

namespace MyLibs
namespace DynHash

structure TableSize (blength records : Nat) : Prop where
  pow : exists k, blength = 2 ^ k
  half_le : blength / 2 <= records
  lt : records < blength

namespace TableSize

variable {blength records : Nat}

theorem pos (h : TableSize blength records) : 0 < blength :=
  Nat.lt_of_le_of_lt (Nat.zero_le records) h.lt

theorem eq_two_mul_half (h : TableSize blength records) (hpos : 0 < records) :
    blength = 2 * (blength / 2) := by
  rcases h.pow with ⟨k, hk⟩
  cases k with
  | zero =>
      have hlt := h.lt
      rw [hk] at hlt
      omega
  | succ k =>
      rw [hk, Nat.pow_succ]
      omega

theorem half_pos (h : TableSize blength records) (hpos : 0 < records) :
    0 < blength / 2 := by
  have htwo := h.eq_two_mul_half hpos
  have hblength := h.pos
  omega

theorem double (h : TableSize blength records) (hfull : records + 1 = blength) :
    TableSize (blength + blength) (records + 1) where
  pow := by
    rcases h.pow with ⟨k, hk⟩
    exact ⟨k + 1, by rw [hk, Nat.pow_succ]; omega⟩
  half_le := by omega
  lt := by omega

theorem grow (h : TableSize blength records) :
    TableSize (if records + 1 = blength then blength + blength else blength)
      (records + 1) := by
  by_cases hfull : records + 1 = blength
  · rw [if_pos hfull]
    exact h.double hfull
  · rw [if_neg hfull]
    exact ⟨h.pow, Nat.le_succ_of_le h.half_le,
      Nat.lt_of_le_of_ne h.lt hfull⟩

theorem shrink (h : TableSize blength (records + 1)) :
    TableSize (if records < blength >>> 1 then blength >>> 1 else blength)
      records := by
  rw [Nat.shiftRight_one]
  have htwo := h.eq_two_mul_half (Nat.succ_pos records)
  by_cases hsmall : records < blength / 2
  · rw [if_pos hsmall]
    rcases h.pow with ⟨k, hk⟩
    cases k with
    | zero =>
        rw [hk] at hsmall
        exact absurd hsmall (by simp)
    | succ k =>
        have hle := h.half_le
        refine ⟨⟨k, ?_⟩, by omega, hsmall⟩
        rw [hk, Nat.pow_succ]
        omega
  · rw [if_neg hsmall]
    have hlt := h.lt
    exact ⟨h.pow, by omega, by omega⟩

theorem blength_lt (h : TableSize blength records) (hrecords : records < 2 ^ 31) :
    blength < 2 ^ 32 := by
  by_cases hpos : 0 < records
  · have htwo := h.eq_two_mul_half hpos
    rcases h.pow with ⟨k, hk⟩
    have hhalf := h.half_le
    have hpow : 2 ^ k < 2 ^ 32 := by omega
    omega
  · rcases h.pow with ⟨k, hk⟩
    have hhalf := h.half_le
    omega

end TableSize

/-!
## The mask in terms of remainders
-/

theorem and_two_pow_eq_zero_iff (h k : Nat) :
    h &&& 2 ^ k = 0 <-> h % 2 ^ (k + 1) < 2 ^ k := by
  have hpos : 0 < 2 ^ k := Nat.two_pow_pos k
  have hsplit : h % 2 ^ (k + 1) = h % 2 ^ k + 2 ^ k * (h / 2 ^ k % 2) := by
    rw [Nat.pow_succ, Nat.mod_mul]
  have hlow := Nat.mod_lt h hpos
  rw [Nat.and_two_pow, Nat.testBit_eq_decide_div_mod_eq, hsplit]
  rcases Nat.mod_two_eq_zero_or_one (h / 2 ^ k) with hbit | hbit
  · simp [hbit, hlow]
  · simp [hbit]

variable {hashnr : UInt32} {blength records maxlength : Nat}

theorem and_sizetSub_one {h b : Nat} (hpow : exists k, b = 2 ^ k)
    (hlt : b < 2 ^ 64) : h &&& sizetSub b 1 = h % b := by
  rcases hpow with ⟨k, hk⟩
  have hpos : 1 <= b := by
    rw [hk]
    exact Nat.two_pow_pos k
  rw [sizetSub_of_le hpos hlt, hk]
  exact Nat.and_two_pow_sub_one_eq_mod h k

theorem myHashMask_eq_of_lt (h : TableSize blength records) (hpos : 0 < records)
    (hblength : blength < 2 ^ 64) :
    myHashMask hashnr blength maxlength =
      if hashnr.toNat % blength < maxlength then hashnr.toNat % blength
      else hashnr.toNat % (blength / 2) := by
  have hhalf : exists k, blength >>> 1 = 2 ^ k := by
    have htwo := h.eq_two_mul_half hpos
    rcases h.pow with ⟨k, hk⟩
    cases k with
    | zero => omega
    | succ k => exact ⟨k, by rw [Nat.shiftRight_one, hk, Nat.pow_succ]; omega⟩
  unfold myHashMask
  rw [and_sizetSub_one h.pow hblength,
    and_sizetSub_one hhalf (by rw [Nat.shiftRight_one]; omega),
    Nat.shiftRight_one]

theorem myHashMask_eq (h : TableSize blength records) (hpos : 0 < records)
    (hrecords : records < 2 ^ 31) :
    myHashMask hashnr blength maxlength =
      if hashnr.toNat % blength < maxlength then hashnr.toNat % blength
      else hashnr.toNat % (blength / 2) := by
  have hblength := h.blength_lt hrecords
  exact myHashMask_eq_of_lt h hpos (by omega)

theorem myHashMask_one : myHashMask hashnr 1 1 = 0 := by
  have hzero : sizetSub 1 1 = 0 := by decide
  unfold myHashMask
  rw [hzero, Nat.and_zero]
  rfl

/-!
## The growth law
-/

theorem mod_half_cases (h : TableSize blength records) (hpos : 0 < records)
    (x : Nat) : x % blength < blength ∧
      x % (blength / 2) =
        if x % blength < blength / 2 then x % blength
        else x % blength - blength / 2 := by
  have htwo := h.eq_two_mul_half hpos
  have hhalf := h.half_pos hpos
  have hlt := Nat.mod_lt x h.pos
  have hmod : x % (blength / 2) = x % blength % (blength / 2) :=
    (Nat.mod_mod_of_dvd x ⟨2, by omega⟩).symm
  refine ⟨hlt, ?_⟩
  rw [hmod]
  split
  · rename_i hsmall
    exact Nat.mod_eq_of_lt hsmall
  · rename_i hlarge
    rw [Nat.mod_eq_sub_mod (by omega), Nat.mod_eq_of_lt (by omega)]

theorem myHashMask_lt_of_lt (h : TableSize blength records) (hpos : 0 < records)
    (hblength : blength < 2 ^ 64) : myHashMask hashnr blength records < records := by
  rw [myHashMask_eq_of_lt h hpos hblength]
  have hcases := mod_half_cases h hpos hashnr.toNat
  have hhalf := h.half_le
  have htwo := h.eq_two_mul_half hpos
  have hhalfPos := h.half_pos hpos
  split
  · assumption
  · rename_i hlarge
    have hmod := Nat.mod_lt hashnr.toNat hhalfPos
    omega

theorem myHashMask_lt (h : TableSize blength records) (hpos : 0 < records)
    (hrecords : records < 2 ^ 31) : myHashMask hashnr blength records < records := by
  have hblength := h.blength_lt hrecords
  exact myHashMask_lt_of_lt h hpos (by omega)

/-- With one more record, only the bucket `records - blength / 2` loses hash
values, to the new bucket. -/
theorem myHashMask_succ (hashnr : UInt32) (h : TableSize blength records) (hpos : 0 < records)
    (hrecords : records < 2 ^ 31) :
    myHashMask hashnr blength (records + 1) = myHashMask hashnr blength records ∨
      myHashMask hashnr blength (records + 1) = records ∧
        myHashMask hashnr blength records = records - blength / 2 := by
  rw [myHashMask_eq h hpos hrecords, myHashMask_eq h hpos hrecords]
  have hcases := mod_half_cases h hpos hashnr.toNat
  have hhalf := h.half_le
  split <;> split <;> first | omega | (split at hcases <;> omega)

theorem myHashMask_succ_of_bit (h : TableSize blength records) (hpos : 0 < records)
    (hrecords : records < 2 ^ 31)
    (hsplit : myHashMask hashnr blength records = records - blength / 2) :
    myHashMask hashnr blength (records + 1) =
      if hashnr.toNat &&& (blength >>> 1) = 0 then records - blength / 2
      else records := by
  have hbit : hashnr.toNat &&& (blength >>> 1) = 0 <->
      hashnr.toNat % blength < blength / 2 := by
    have htwo := h.eq_two_mul_half hpos
    have hhalfPos := h.half_pos hpos
    rcases h.pow with ⟨k, hk⟩
    cases k with
    | zero => omega
    | succ k =>
        have hhalf : blength / 2 = 2 ^ k := by
          rw [hk, Nat.pow_succ]
          omega
        rw [Nat.shiftRight_one, hhalf, and_two_pow_eq_zero_iff, hk]
  rw [myHashMask_eq h hpos hrecords] at hsplit ⊢
  have hcases := mod_half_cases h hpos hashnr.toNat
  have hhalf := h.half_le
  have hlt := h.lt
  have htwo := h.eq_two_mul_half hpos
  simp only [hbit]
  grind

theorem myHashMask_double (hashnr : UInt32) (h : TableSize blength records)
    (hfull : records + 1 = blength) (hrecords : records < 2 ^ 31) :
    myHashMask hashnr (blength + blength) (records + 1) =
      myHashMask hashnr blength (records + 1) := by
  have hdouble := h.double hfull
  rw [myHashMask_eq_of_lt hdouble (Nat.succ_pos records) (by omega)]
  have hcases := mod_half_cases hdouble (Nat.succ_pos records) hashnr.toNat
  have hhalf : (blength + blength) / 2 = blength := by omega
  rw [hhalf] at hcases ⊢
  cases records with
  | zero =>
      rw [← hfull, myHashMask_one]
      split <;> omega
  | succ records =>
      rw [myHashMask_eq h (Nat.succ_pos records) hrecords]
      have hlt := Nat.mod_lt hashnr.toNat h.pos
      grind

/-- Whether or not `blength` changes, the buckets of the larger table are those
of `records + 1` slots. -/
theorem myHashMask_grow (h : TableSize blength records)
    (hrecords : records < 2 ^ 31) :
    myHashMask hashnr
        (if records + 1 = blength then blength + blength else blength) (records + 1) =
      myHashMask hashnr blength (records + 1) := by
  split
  · rename_i hfull
    exact myHashMask_double hashnr h hfull hrecords
  · rfl

theorem myHashMask_succ_lt (h : TableSize blength records)
    (hrecords : records < 2 ^ 31) :
    myHashMask hashnr blength (records + 1) < records + 1 := by
  have hblength := h.blength_lt hrecords
  rw [← myHashMask_grow h hrecords]
  apply myHashMask_lt_of_lt h.grow (Nat.succ_pos records)
  split <;> omega

theorem myHashMask_shrink (h : TableSize blength (records + 1))
    (hrecords : records < 2 ^ 31) :
    myHashMask hashnr
        (if records < blength >>> 1 then blength >>> 1 else blength) (records + 1) =
      myHashMask hashnr blength (records + 1) := by
  have hsmaller := h.shrink
  rw [Nat.shiftRight_one] at hsmaller ⊢
  split
  · rename_i hsmall
    rw [if_pos hsmall] at hsmaller
    have htwo := h.eq_two_mul_half (Nat.succ_pos records)
    have hhalf := h.half_le
    have hdouble := myHashMask_double hashnr hsmaller (by omega) hrecords
    have hsame : blength / 2 + blength / 2 = blength := by omega
    rw [hsame] at hdouble
    exact hdouble.symm
  · rfl

end DynHash
end MyLibs
