import Mathlib.Data.Multiset.MapFold
import MyLibs.DynHash.Growth
import MyLibs.Foundation.HashRewiring

/-!
# Chains and contents of an array of links

The links of the table as an instance of chained slots, and the records in a set
of slots as a multiset. All slots may be live, or all but the free one that an
operation carries around.
-/

namespace MyLibs
namespace DynHash

open Foundation

/-- `array[i].next`. -/
def nextOf (data : Nat -> HashLink) (i : Nat) : Nat :=
  (data i).next

def homeOf (hashnr : Ptr -> UInt32) (blength records : Nat)
    (data : Nat -> HashLink) (i : Nat) : Nat :=
  myHashMask (hashnr (data i).data) blength records

def Linked (hashnr : Ptr -> UInt32) (blength records : Nat)
    (data : Nat -> HashLink) (live : Finset Nat) : Prop :=
  Chained NO_RECORD (nextOf data) (homeOf hashnr blength records data) live

def contentsOf (live : Finset Nat) (data : Nat -> HashLink) : Multiset Ptr :=
  live.val.map fun i => (data i).data

/-!
## Contents
-/

section Contents

variable {live : Finset Nat} {data data' : Nat -> HashLink}

theorem contentsOf_congr
    (h : forall i, i ∈ live -> (data' i).data = (data i).data) :
    contentsOf live data' = contentsOf live data :=
  Multiset.map_congr rfl h

theorem contentsOf_insert {i : Nat} (hi : i ∉ live) :
    contentsOf (insert i live) data = (data i).data ::ₘ contentsOf live data := by
  unfold contentsOf
  rw [Finset.insert_val_of_notMem hi, Multiset.map_cons]

theorem contentsOf_erase {i : Nat} (hi : i ∈ live) :
    contentsOf live data = (data i).data ::ₘ contentsOf (live.erase i) data := by
  rw [← contentsOf_insert (Finset.notMem_erase i live), Finset.insert_erase hi]

theorem mem_contentsOf {record : Ptr} :
    record ∈ contentsOf live data <-> exists i, i ∈ live ∧ (data i).data = record := by
  unfold contentsOf
  rw [Multiset.mem_map]
  rfl

theorem contentsOf_move {x e : Nat} (hx : x ∈ live) (he : e ∉ live)
    (hnew : (data' e).data = (data x).data)
    (hsame : forall i, i ∈ live -> i ≠ x -> (data' i).data = (data i).data) :
    contentsOf (insert e (live.erase x)) data' = contentsOf live data := by
  have hfree : e ∉ live.erase x := fun h => he (Finset.mem_of_mem_erase h)
  rw [contentsOf_insert hfree, contentsOf_erase hx, hnew]
  congr 1
  apply contentsOf_congr
  intro i hi
  exact hsame i (Finset.mem_of_mem_erase hi) (Finset.ne_of_mem_erase hi)

theorem contentsOf_displace {x e : Nat} (hx : x ∈ live) (he : e ∉ live)
    (hnew : (data' e).data = (data x).data)
    (hsame : forall i, i ∈ live -> i ≠ x -> (data' i).data = (data i).data) :
    contentsOf (insert e live) data' = (data' x).data ::ₘ contentsOf live data := by
  have hmoved := contentsOf_move hx he hnew hsame
  have hx' : x ∉ insert e (live.erase x) := by
    rw [Finset.mem_insert]
    rintro (rfl | h)
    · exact he hx
    · exact Finset.notMem_erase x live h
  have hset : insert x (insert e (live.erase x)) = insert e live := by
    rw [Finset.insert_comm, Finset.insert_erase hx]
  rw [← hmoved, ← contentsOf_insert hx', hset]

end Contents

/-!
## Following links
-/

section Links

variable {data : Nat -> HashLink}

theorem movelink_eq {find start p fuel : Nat} {before : List Nat} (newlink : Nat)
    (h : Segment (nextOf data) start (before ++ [p]) find)
    (hfind : find ∉ before ++ [p]) (hfuel : before.length < fuel) :
    movelink find newlink fuel data start =
      some (Function.update data p { data p with next := newlink }) := by
  induction before generalizing start fuel with
  | nil =>
      cases fuel with
      | zero => exact absurd hfuel (Nat.not_lt_zero 0)
      | succ fuel =>
          have hstart : start = p := h.left
          have hnext : (data p).next = find := h.right
          simp [movelink, hstart, hnext]
  | cons i before ih =>
      cases fuel with
      | zero => exact absurd hfuel (Nat.not_lt_zero _)
      | succ fuel =>
          have hstart : start = i := h.left
          have htail : Segment (nextOf data) (data i).next (before ++ [p]) find :=
            h.right
          have hne : (data i).next ≠ find := by
            rcases htail.eq_cons (by simp) with ⟨rest, hrest⟩
            intro heq
            apply hfind
            rw [List.cons_append, hrest, heq]
            simp
          have hrec := ih htail (List.not_mem_of_not_mem_cons hfind)
            (Nat.lt_of_succ_lt_succ hfuel)
          simp [movelink, hstart, hne, hrec]

end Links

section Chains

variable {hashnr : Ptr -> UInt32} {blength records : Nat}
variable {data data' : Nat -> HashLink} {live : Finset Nat}

theorem Linked.congr (h : Linked hashnr blength records data live)
    (hsame : forall i, i ∈ live -> data' i = data i) :
    Linked hashnr blength records data' live := by
  refine Chained.congr h ?_ ?_
  · intro i hi
    unfold homeOf
    rw [hsame i hi]
  · intro i hi
    unfold nextOf
    rw [hsame i hi]

/-- `movelink` on the chain that leads to a slot which is not the head, while that
slot and a free one may already have been overwritten. -/
theorem movelink_pred {home : Nat -> Nat}
    (h : Chained NO_RECORD (nextOf data) home live) (hnil : NO_RECORD ∉ live)
    {x fuel : Nat} (newlink : Nat) (data' : Nat -> HashLink) (hx : x ∈ live)
    (hforeign : home x ≠ x) (hfuel : live.card <= fuel)
    (hsame : forall i, i ∈ live -> i ≠ x -> data' i = data i) :
    exists p, p ∈ live ∧ p ≠ x ∧ nextOf data p = x ∧
      movelink x newlink fuel data' (home x) =
        some (Function.update data' p { data p with next := newlink }) := by
  rcases h.exists_pred hx hforeign with ⟨before, p, after, hchain⟩
  have hlive : forall i, i ∈ before ++ p :: x :: after -> i ∈ live :=
    fun i hi => ((hchain.mem_iff i).mp hi).left
  have hnodup := hchain.nodup hnil
  have hp : p ∈ live := hlive p (by simp)
  have hpx : p ≠ x := by grind
  have hsplit : before ++ p :: x :: after = (before ++ [p]) ++ x :: after := by simp
  have hsegment := hchain.segment
  rw [hsplit] at hsegment
  have hfind : x ∉ before ++ [p] := by grind
  have hwalk : Segment (nextOf data') (home x) (before ++ [p]) x := by
    apply hsegment.split_cons.left.congr
    intro i hi
    have hix : i ≠ x := by
      rintro rfl
      exact hfind hi
    unfold nextOf
    rw [hsame i (hlive i (by rw [hsplit]; exact List.mem_append_left _ hi)) hix]
  have hlength := hchain.length_le_card hnil
  rw [List.length_append, List.length_cons] at hlength
  have hmove := movelink_eq newlink hwalk hfind (show before.length < fuel by omega)
  refine ⟨p, hp, hpx, hsegment.split_cons.left.next_last, ?_⟩
  rw [hmove, hsame p hp hpx]

theorem movelink_last {home : Nat -> Nat}
    (h : Chained NO_RECORD (nextOf data) home live) (hnil : NO_RECORD ∉ live)
    {b fuel : Nat} (newlink : Nat) (hb : b ∈ live) (hhome : home b = b)
    (hfuel : live.card <= fuel) :
    exists q, q ∈ live ∧ home q = b ∧ nextOf data q = NO_RECORD ∧
      movelink NO_RECORD newlink fuel data b =
        some (Function.update data q { data q with next := newlink }) := by
  rcases h.chain_of_head hb hhome with ⟨tail, hchain⟩
  rcases List.eq_nil_or_concat (b :: tail) with hempty | ⟨initial, q, hlast⟩
  · exact absurd hempty (List.cons_ne_nil b tail)
  · have hlength := hchain.length_le_card hnil
    have hout := hchain.nil_not_mem hnil
    have hsegment := hchain.segment
    have hq := (hchain.mem_iff q).mp (by rw [hlast]; simp)
    rw [List.concat_eq_append] at hlast
    rw [hlast] at hlength hout hsegment
    rw [List.length_append, List.length_singleton] at hlength
    exact ⟨q, hq.left, hq.right, hsegment.next_last,
      movelink_eq newlink hsegment hout (by omega)⟩

end Chains

end DynHash
end MyLibs
