import Mathlib.Logic.Function.Basic

/-!
# Blocks with one owner

Parties share a memory and own at most one block of it each. No two parties own the same
block, and no block is left without an owner.
-/

namespace MyLibs
namespace Foundation

variable {party address content : Type _}

structure SoleOwners (owned : party -> Option address) (memory : address -> Option content) :
    Prop where
  live : forall c p, owned c = some p -> memory p ≠ none
  apart : forall c d p, owned c = some p -> owned d = some p -> c = d
  reached : forall p, memory p ≠ none -> exists c, owned c = some p

/-- What a party may do to the memory: write to the block it owns, obtain a free one or
give its own back. -/
inductive OwnerStep [DecidableEq address] (owned : Option address)
    (memory : address -> Option content) :
    Option address -> (address -> Option content) -> Prop where
  | keeps : OwnerStep owned memory owned memory
  | writes {p : address} (x : content) :
      owned = some p -> OwnerStep owned memory owned (Function.update memory p (some x))
  | obtains {p : address} (x : content) :
      owned = none -> memory p = none ->
      OwnerStep owned memory (some p) (Function.update memory p (some x))
  | gives {p : address} :
      owned = some p -> OwnerStep owned memory none (Function.update memory p none)

namespace SoleOwners

variable {owned : party -> Option address} {memory memory' : address -> Option content}
  {owned' : Option address} {c d : party} {p : address}

theorem empty : SoleOwners (fun _ : party => (none : Option address))
    (fun _ => (none : Option content)) where
  live := by
    intro c p h
    cases h
  apart := by
    intro c d p h
    cases h
  reached := by
    intro p h
    exact absurd rfl h

variable [DecidableEq address]

theorem other (h : SoleOwners owned memory) (hstep : OwnerStep (owned c) memory owned' memory')
    (hne : d ≠ c) (hp : owned d = some p) : memory' p = memory p := by
  cases hstep with
  | keeps => rfl
  | writes x hq =>
      refine Function.update_of_ne (fun heq => hne ?_) _ _
      rw [← heq] at hq
      exact h.apart d c p hp hq
  | obtains x hnone hfree =>
      refine Function.update_of_ne (fun heq => h.live d p hp ?_) _ _
      rw [heq]
      exact hfree
  | gives hq =>
      refine Function.update_of_ne (fun heq => hne ?_) _ _
      rw [← heq] at hq
      exact h.apart d c p hp hq

theorem stays_apart (h : SoleOwners owned memory)
    (hstep : OwnerStep (owned c) memory owned' memory') (hne : d ≠ c)
    (hp : owned d = some p) : owned' ≠ some p := by
  intro hmine
  cases hstep with
  | keeps => exact hne (h.apart d c p hp hmine)
  | writes x hq => exact hne (h.apart d c p hp hmine)
  | obtains x hnone hfree =>
      cases hmine
      exact h.live d p hp hfree
  | gives hq => cases hmine

theorem own_live (h : SoleOwners owned memory)
    (hstep : OwnerStep (owned c) memory owned' memory') (hp : owned' = some p) :
    memory' p ≠ none := by
  cases hstep with
  | keeps => exact h.live c p hp
  | writes x hq =>
      rw [hp] at hq
      cases hq
      rw [Function.update_self]
      exact Option.some_ne_none x
  | obtains x hnone hfree =>
      cases hp
      rw [Function.update_self]
      exact Option.some_ne_none x
  | gives hq => cases hp

theorem live_after (h : SoleOwners owned memory)
    (hstep : OwnerStep (owned c) memory owned' memory') (hlive : memory' p ≠ none) :
    owned' = some p ∨ exists d, d ≠ c ∧ owned d = some p := by
  cases hstep with
  | keeps =>
      rcases h.reached p hlive with ⟨d, hd⟩
      by_cases hdc : d = c
      · rw [hdc] at hd
        exact Or.inl hd
      · exact Or.inr ⟨d, hdc, hd⟩
  | @writes q x hq =>
      by_cases hpq : p = q
      · rw [hpq]
        exact Or.inl hq
      · rw [Function.update_of_ne hpq] at hlive
        rcases h.reached p hlive with ⟨d, hd⟩
        refine Or.inr ⟨d, fun hdc => hpq ?_, hd⟩
        rw [hdc, hq] at hd
        exact (Option.some.inj hd).symm
  | @obtains q x hnone hfree =>
      by_cases hpq : p = q
      · rw [hpq]
        exact Or.inl rfl
      · rw [Function.update_of_ne hpq] at hlive
        rcases h.reached p hlive with ⟨d, hd⟩
        refine Or.inr ⟨d, fun hdc => ?_, hd⟩
        rw [hdc, hnone] at hd
        cases hd
  | @gives q hq =>
      by_cases hpq : p = q
      · rw [hpq, Function.update_self] at hlive
        exact absurd rfl hlive
      · rw [Function.update_of_ne hpq] at hlive
        rcases h.reached p hlive with ⟨d, hd⟩
        refine Or.inr ⟨d, fun hdc => hpq ?_, hd⟩
        rw [hdc, hq] at hd
        exact (Option.some.inj hd).symm

variable [DecidableEq party]

theorem step (h : SoleOwners owned memory)
    (hstep : OwnerStep (owned c) memory owned' memory') :
    SoleOwners (Function.update owned c owned') memory' where
  live := by
    intro d p hp
    by_cases hdc : d = c
    · rw [hdc, Function.update_self] at hp
      exact h.own_live hstep hp
    · rw [Function.update_of_ne hdc] at hp
      rw [h.other hstep hdc hp]
      exact h.live d p hp
  apart := by
    intro d e p hd he
    by_cases hdc : d = c
    · by_cases hec : e = c
      · rw [hdc, hec]
      · rw [hdc, Function.update_self] at hd
        rw [Function.update_of_ne hec] at he
        exact absurd hd (h.stays_apart hstep hec he)
    · rw [Function.update_of_ne hdc] at hd
      by_cases hec : e = c
      · rw [hec, Function.update_self] at he
        exact absurd he (h.stays_apart hstep hdc hd)
      · rw [Function.update_of_ne hec] at he
        exact h.apart d e p hd he
  reached := by
    intro p hlive
    rcases h.live_after hstep hlive with hmine | ⟨d, hdc, hd⟩
    · refine ⟨c, ?_⟩
      rw [Function.update_self]
      exact hmine
    · refine ⟨d, ?_⟩
      rw [Function.update_of_ne hdc]
      exact hd

end SoleOwners
end Foundation
end MyLibs
