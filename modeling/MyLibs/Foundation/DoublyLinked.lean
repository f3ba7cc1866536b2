import Mathlib.Data.List.Nodup
import Mathlib.Logic.Function.Basic
import Mathlib.Tactic.Common
import MyLibs.Foundation.Segment

/-!
# Doubly linked segments

Cells with a successor and a predecessor, seen as a partial function from cells
to pairs of links. A segment is walked through the successors; every cell on it
has the cell before it as its predecessor.
-/

namespace MyLibs
namespace Foundation

variable {ι : Type _}

/-- The successor and the predecessor of a cell. Cells that do not exist have
neither. -/
abbrev Links (ι : Type _) := ι -> Option (ι × ι)

/-- The cells from `start` up to `stop`, where `before` precedes the first. -/
def Doubly (links : Links ι) : ι -> ι -> List ι -> ι -> Prop
  | _, start, [], stop => start = stop
  | before, start, i :: path, stop =>
      start = i ∧ exists next, links i = some (next, before) ∧
        Doubly links i next path stop

namespace Doubly

variable {links links' : Links ι} {before start stop mid : ι} {path rest : List ι}

@[simp]
theorem nil_iff : Doubly links before start [] stop <-> start = stop :=
  Iff.rfl

theorem exists_links {i : ι} (h : Doubly links before start path stop) (hi : i ∈ path) :
    exists next prev, links i = some (next, prev) := by
  induction path generalizing before start with
  | nil => cases hi
  | cons j path ih =>
      rcases h with ⟨_, next, hlinks, htail⟩
      cases hi with
      | head => exact ⟨next, before, hlinks⟩
      | tail _ hi => exact ih htail hi

theorem congr (hsame : forall i, i ∈ path -> links' i = links i)
    (h : Doubly links before start path stop) :
    Doubly links' before start path stop := by
  induction path generalizing before start with
  | nil => exact h
  | cons i path ih =>
      rcases h with ⟨hstart, next, hlinks, htail⟩
      have htail' := ih (fun j hj => hsame j (List.mem_cons_of_mem i hj)) htail
      rw [← hsame i (List.mem_cons_self ..)] at hlinks
      exact ⟨hstart, next, hlinks, htail'⟩

theorem append_iff : Doubly links before start (path ++ rest) stop <->
    exists mid, Doubly links before start path mid ∧
      Doubly links (path.getLastD before) mid rest stop := by
  induction path generalizing before start with
  | nil =>
      constructor
      · intro h
        exact ⟨start, rfl, h⟩
      · rintro ⟨mid, hmid, h⟩
        rw [nil_iff] at hmid
        rw [hmid]
        exact h
  | cons i path ih =>
      rw [List.cons_append, List.getLastD_cons]
      constructor
      · rintro ⟨hstart, next, hlinks, h⟩
        rcases ih.mp h with ⟨mid, hfirst, hsecond⟩
        exact ⟨mid, ⟨hstart, next, hlinks, hfirst⟩, hsecond⟩
      · rintro ⟨mid, ⟨hstart, next, hlinks, hfirst⟩, hsecond⟩
        exact ⟨hstart, next, hlinks, ih.mpr ⟨mid, hfirst, hsecond⟩⟩

/-- Two walks from one cell up to a marker that does not exist are the same. -/
theorem unique {other : List ι} {before' : ι} (hstop : links stop = none)
    (h : Doubly links before start path stop)
    (hother : Doubly links before' start other stop) : path = other := by
  induction path generalizing before before' start other with
  | nil =>
      cases other with
      | nil => rfl
      | cons j other =>
          rcases hother with ⟨hj, next, hlinks, _⟩
          rw [nil_iff] at h
          rw [← hj, h, hstop] at hlinks
          cases hlinks
  | cons i path ih =>
      rcases h with ⟨hi, next, hlinks, htail⟩
      cases other with
      | nil =>
          rw [nil_iff] at hother
          rw [← hi, hother, hstop] at hlinks
          cases hlinks
      | cons j other =>
          rcases hother with ⟨hj, next', hlinks', htail'⟩
          have hij : i = j := hi.symm.trans hj
          subst hij
          rw [hlinks] at hlinks'
          cases hlinks'
          rw [ih htail htail']

theorem nodup (hstop : links stop = none) (h : Doubly links before start path stop) :
    path.Nodup := by
  induction path generalizing before start with
  | nil => exact List.nodup_nil
  | cons i path ih =>
      have hwhole := h
      rcases h with ⟨hstart, next, hlinks, htail⟩
      refine List.nodup_cons.mpr ⟨?_, ih htail⟩
      intro hi
      rcases List.append_of_mem hi with ⟨first, second, hsplit⟩
      -- the path from the second visit of `i` would be the whole path again
      rw [hsplit, append_iff] at htail
      rcases htail with ⟨mid, _, hsecond⟩
      have hmid : mid = start := hsecond.left.trans hstart.symm
      rw [hmid] at hsecond
      have hlength := congrArg List.length (unique hstop hwhole hsecond)
      rw [hsplit] at hlength
      simp only [List.length_cons, List.length_append] at hlength
      omega

theorem start_eq (h : Doubly links before start path stop) : start = path.headD stop := by
  cases path with
  | nil => exact h
  | cons i path => exact h.left

theorem links_at {i : ι} (h : Doubly links before start (path ++ i :: rest) stop) :
    links i = some (rest.headD stop, path.getLastD before) := by
  rw [append_iff] at h
  rcases h with ⟨mid, _, _, next, hlinks, htail⟩
  rw [hlinks, htail.start_eq]

theorem segment {next : ι -> ι}
    (hnext : forall i link, links i = some link -> next i = link.1)
    (h : Doubly links before start path stop) : Segment next start path stop := by
  induction path generalizing before start with
  | nil => exact h
  | cons i path ih =>
      rcases h with ⟨hstart, j, hlinks, htail⟩
      have hj : next i = j := hnext i _ hlinks
      rw [← hj] at htail
      exact ⟨hstart, ih htail⟩

end Doubly

def flipped (links : Links ι) : Links ι :=
  fun i => (links i).map Prod.swap

/-- Walking through the predecessors passes the cells in the opposite order. -/
theorem Doubly.reverse {links : Links ι} {before start stop : ι} {path : List ι}
    (h : Doubly links before start path stop) :
    Doubly (flipped links) stop (path.getLastD before) path.reverse before := by
  induction path generalizing before start with
  | nil => rfl
  | cons i path ih =>
      rcases h with ⟨_, next, hlinks, htail⟩
      rw [List.getLastD_cons, List.reverse_cons, Doubly.append_iff]
      have hnext : next = path.reverse.getLastD stop := by
        rw [htail.start_eq]
        cases path with
        | nil => rfl
        | cons j path => rw [List.reverse_cons, List.getLastD_concat, List.headD_cons]
      refine ⟨i, ih htail, rfl, before, ?_, rfl⟩
      rw [flipped, hlinks, hnext]
      rfl

/-!
## Writing links
-/

section Writes

variable [DecidableEq ι]

def setNext (links : Links ι) (i next : ι) : Links ι :=
  Function.update links i ((links i).map fun link => (next, link.2))

def setPrev (links : Links ι) (i prev : ι) : Links ι :=
  Function.update links i ((links i).map fun link => (link.1, prev))

variable {links : Links ι} {before start stop i j : ι} {path rest : List ι}

theorem setNext_of_ne (next : ι) (hne : j ≠ i) : setNext links i next j = links j :=
  Function.update_of_ne hne ..

theorem setPrev_of_ne (prev : ι) (hne : j ≠ i) : setPrev links i prev j = links j :=
  Function.update_of_ne hne ..

theorem setNext_self (next : ι) {link : ι × ι} (h : links i = some link) :
    setNext links i next i = some (next, link.2) := by
  simp [setNext, h]

theorem setPrev_self (prev : ι) {link : ι × ι} (h : links i = some link) :
    setPrev links i prev i = some (link.1, prev) := by
  simp [setPrev, h]

theorem setNext_none (next : ι) (h : links i = none) : setNext links i next = links := by
  rw [setNext, h, Option.map_none, ← h, Function.update_eq_self]

theorem setPrev_none (prev : ι) (h : links i = none) : setPrev links i prev = links := by
  rw [setPrev, h, Option.map_none, ← h, Function.update_eq_self]

theorem Doubly.setPrev_start (prev : ι) (hstop : links stop = none)
    (h : Doubly links before start path stop) :
    Doubly (setPrev links start prev) prev start path stop := by
  cases path with
  | nil => exact h
  | cons i path =>
      have hnodup := h.nodup hstop
      rcases h with ⟨hstart, next, hlinks, htail⟩
      subst hstart
      refine ⟨rfl, next, setPrev_self prev hlinks, ?_⟩
      refine htail.congr fun j hj => ?_
      have hne : j ≠ start := by
        rintro rfl
        exact (List.nodup_cons.mp hnodup).left hj
      exact setPrev_of_ne prev hne

theorem Doubly.setNext_last (stop' : ι) (hlast : i ∉ path)
    (h : Doubly links before start (path ++ [i]) stop) :
    Doubly (setNext links i stop') before start (path ++ [i]) stop' := by
  rw [Doubly.append_iff] at h
  rcases h with ⟨mid, hfirst, hmid, next, hlinks, _⟩
  rw [Doubly.append_iff]
  refine ⟨mid, hfirst.congr fun j hj => ?_, hmid, stop', setNext_self stop' hlinks, rfl⟩
  have hne : j ≠ i := by
    rintro rfl
    exact hlast hj
  exact setNext_of_ne stop' hne

def pushed (links : Links ι) (nil start i : ι) : Links ι :=
  Function.update (setPrev links start i) i (some (start, nil))

theorem pushed_self (nil : ι) : pushed links nil start i i = some (start, nil) :=
  Function.update_self ..

theorem pushed_of_ne (nil : ι) (hi : j ≠ i) (hstart : j ≠ start) :
    pushed links nil start i j = links j := by
  rw [pushed, Function.update_of_ne hi, setPrev_of_ne _ hstart]

theorem Doubly.push {nil : ι} (hnil : links nil = none) (hi : i ∉ path) (hne : i ≠ nil)
    (h : Doubly links nil start path nil) :
    Doubly (pushed links nil start i) nil i (i :: path) nil := by
  refine ⟨rfl, start, pushed_self nil, ?_⟩
  refine (h.setPrev_start i hnil).congr fun j hj => ?_
  have hji : j ≠ i := by
    rintro rfl
    exact hi hj
  exact Function.update_of_ne hji ..

theorem setPrev_update {nil : ι} (hne : i ≠ start) :
    setPrev (Function.update links i (some (start, nil))) start i =
      pushed links nil start i := by
  rw [pushed, setPrev, setPrev, Function.update_of_ne (Ne.symm hne),
    Function.update_comm hne]

/-- A cell that exists is moved by three writes. -/
theorem setPrev_setPrev_setNext {nil : ι} {link : ι × ι} (hi : links i = some link)
    (hne : i ≠ start) :
    setPrev (setPrev (setNext links i start) start i) i nil = pushed links nil start i := by
  have hself : setPrev (setNext links i start) start i i = some (start, link.2) := by
    rw [setPrev_of_ne _ hne, setNext_self _ hi]
  rw [setPrev, hself, Option.map_some]
  rw [setPrev, setNext, Function.update_of_ne (Ne.symm hne), pushed, setPrev,
    Function.update_comm hne, Function.update_idem]

def inserted (links : Links ι) (next prev i : ι) : Links ι :=
  setPrev (setNext (Function.update links i (some (next, prev))) prev i) next i

theorem inserted_self {next prev : ι} (hnext : i ≠ next) (hprev : i ≠ prev) :
    inserted links next prev i i = some (next, prev) := by
  rw [inserted, setPrev_of_ne _ hnext, setNext_of_ne _ hprev, Function.update_self]

theorem Doubly.inserted_rest {nil next prev : ι} (hnil : links nil = none)
    (hne : i ≠ nil) (hprev : prev = nil ∨ prev ∉ rest) (hi : i ∉ rest)
    (h : Doubly links prev next rest nil) :
    Doubly (inserted links next prev i) i next rest nil := by
  have hsame : Doubly (setNext (Function.update links i (some (next, prev))) prev i)
      prev next rest nil := by
    refine h.congr fun j hj => ?_
    have hji : j ≠ i := by
      rintro rfl
      exact hi hj
    have hjprev : j ≠ prev := by
      rintro rfl
      cases hprev with
      | inl hprev =>
          rcases h.exists_links hj with ⟨_, _, hlinks⟩
          rw [hprev, hnil] at hlinks
          cases hlinks
      | inr hprev => exact hprev hj
    rw [setNext_of_ne _ hjprev, Function.update_of_ne hji]
  have hnil' : setNext (Function.update links i (some (next, prev))) prev i nil = none := by
    have hupdate : Function.update links i (some (next, prev)) nil = none := by
      rw [Function.update_of_ne (Ne.symm hne), hnil]
    by_cases heq : nil = prev
    · subst heq
      rw [setNext_none _ hupdate, hupdate]
    · rw [setNext_of_ne _ heq, hupdate]
  exact hsame.setPrev_start i hnil'

theorem Doubly.inserted_first {next prev : ι} (hlast : prev ∉ path)
    (hi : i ∉ path ++ [prev]) (hnext : next ∉ path ++ [prev])
    (h : Doubly links before start (path ++ [prev]) next) :
    Doubly (inserted links next prev i) before start (path ++ [prev]) i := by
  have hupdate : Doubly (Function.update links i (some (next, prev))) before start
      (path ++ [prev]) next := by
    refine h.congr fun j hj => ?_
    have hne : j ≠ i := by
      rintro rfl
      exact hi hj
    exact Function.update_of_ne hne ..
  refine (hupdate.setNext_last i hlast).congr fun j hj => ?_
  have hne : j ≠ next := by
    rintro rfl
    exact hnext hj
  exact setPrev_of_ne i hne

theorem Doubly.insert {nil : ι} (hnil : links nil = none) (hi : links i = none)
    (hne : i ≠ nil) (h : Doubly links nil start (path ++ rest) nil) :
    Doubly (inserted links (rest.headD nil) (path.getLastD nil) i) nil
      (if path = [] then i else start) (path ++ i :: rest) nil := by
  have hnodup := h.nodup hnil
  have hmem : i ∉ path ++ rest := by
    intro hmem
    rcases h.exists_links hmem with ⟨_, _, hlinks⟩
    rw [hi] at hlinks
    cases hlinks
  rw [List.mem_append, not_or] at hmem
  have hexists : forall j, j ∈ path ++ rest -> j ≠ nil := by
    rintro j hj rfl
    rcases h.exists_links hj with ⟨_, _, hlinks⟩
    rw [hnil] at hlinks
    cases hlinks
  rw [List.nodup_append] at hnodup
  rcases hnodup with ⟨hpath, _, hdisjoint⟩
  rw [Doubly.append_iff] at h
  rcases h with ⟨next, hfirst, hsecond⟩
  rw [← hsecond.start_eq]
  have hnextCases : next = nil ∨ next ∈ rest := by
    rw [hsecond.start_eq]
    cases rest with
    | nil => exact Or.inl rfl
    | cons r rest => exact Or.inr (List.mem_cons_self ..)
  have hinext : i ≠ next := by
    rintro rfl
    exact hnextCases.elim hne hmem.right
  rcases List.eq_nil_or_concat path with hempty | ⟨first, last, hsplit⟩
  · subst hempty
    have hrest := hsecond.inserted_rest hnil hne (Or.inl rfl) hmem.right
    rw [if_pos rfl]
    exact ⟨rfl, next, inserted_self hinext hne, hrest⟩
  · rw [List.concat_eq_append] at hsplit
    subst hsplit
    rw [List.getLastD_concat] at hsecond ⊢
    rw [if_neg (by simp), Doubly.append_iff, List.getLastD_concat]
    have hlast : last ∈ first ++ [last] := by simp
    have hlastRest : last ∉ rest := fun hrest =>
      hdisjoint last hlast last hrest rfl
    have hlastFirst : last ∉ first := by
      intro hfirst
      rw [List.nodup_append] at hpath
      exact hpath.right.right last hfirst last (List.mem_cons_self ..) rfl
    have hilast : i ≠ last := by
      rintro rfl
      exact hmem.left hlast
    have hnext : next ∉ first ++ [last] := by
      intro hpath'
      rcases hnextCases with hnone | hrest
      · exact hexists next (List.mem_append_left _ hpath') hnone
      · exact hdisjoint next hpath' next hrest rfl
    exact ⟨i, hfirst.inserted_first hlastFirst hmem.left hnext, rfl, next,
      inserted_self hinext hilast,
      hsecond.inserted_rest hnil hne (Or.inr hlastRest) hmem.right⟩

def unlinked (links : Links ι) (next prev i : ι) : Links ι :=
  Function.update (setNext (setPrev links next prev) prev next) i none

theorem unlinked_of_ne {next prev : ι} (hi : j ≠ i) (hnext : j ≠ next) (hprev : j ≠ prev) :
    unlinked links next prev i j = links j := by
  rw [unlinked, Function.update_of_ne hi, setNext_of_ne _ hprev, setPrev_of_ne _ hnext]

theorem Doubly.unlinked_rest {nil next prev : ι} (hnil : links nil = none)
    (hprev : prev = nil ∨ prev ∉ rest) (hi : i ∉ rest)
    (h : Doubly links i next rest nil) :
    Doubly (unlinked links next prev i) prev next rest nil := by
  refine (h.setPrev_start prev hnil).congr fun j hj => ?_
  have hji : j ≠ i := by
    rintro rfl
    exact hi hj
  have hjprev : j ≠ prev := by
    rintro rfl
    cases hprev with
    | inl hprev =>
        rcases h.exists_links hj with ⟨_, _, hlinks⟩
        rw [hprev, hnil] at hlinks
        cases hlinks
    | inr hprev => exact hprev hj
  rw [unlinked, Function.update_of_ne hji, setNext_of_ne _ hjprev]

theorem Doubly.unlinked_first {next prev : ι} (hlast : prev ∉ path) (hi : i ∉ path ++ [prev])
    (hnext : next ∉ path ++ [prev]) (h : Doubly links before start (path ++ [prev]) i) :
    Doubly (unlinked links next prev i) before start (path ++ [prev]) next := by
  have hstill : Doubly (setPrev links next prev) before start (path ++ [prev]) i := by
    refine h.congr fun j hj => ?_
    have hne : j ≠ next := by
      rintro rfl
      exact hnext hj
    exact setPrev_of_ne prev hne
  refine (hstill.setNext_last next hlast).congr fun j hj => ?_
  have hne : j ≠ i := by
    rintro rfl
    exact hi hj
  exact Function.update_of_ne hne ..

theorem Doubly.unlink {nil next prev : ι} (hnil : links nil = none)
    (hlinks : links i = some (next, prev))
    (h : Doubly links nil start (path ++ i :: rest) nil) :
    Doubly (unlinked links next prev i) nil (if prev = nil then next else start)
      (path ++ rest) nil := by
  have hnodup := h.nodup hnil
  rw [List.nodup_append] at hnodup
  rcases hnodup with ⟨hpath, hcons, hdisjoint⟩
  have hi : i ∉ path := fun hmem => hdisjoint i hmem i (List.mem_cons_self ..) rfl
  have hrest : forall j, j ∈ path -> j ∉ rest := fun j hj hmem =>
    hdisjoint j hj j (List.mem_cons_of_mem i hmem) rfl
  have hirest := (List.nodup_cons.mp hcons).left
  rw [Doubly.append_iff] at h
  rcases h with ⟨mid, hfirst, hmid, next', hlinks', hsecond⟩
  rw [hlinks] at hlinks'
  cases hlinks'
  rw [hmid] at hfirst
  rcases List.eq_nil_or_concat path with hempty | ⟨first, last, hsplit⟩
  · subst hempty
    simp only [List.getLastD_nil, List.nil_append, if_true]
    exact Doubly.unlinked_rest hnil (Or.inl rfl) hirest hsecond
  · rw [List.concat_eq_append] at hsplit
    subst hsplit
    rw [List.getLastD_concat]
    have hlast : last ∈ first ++ [last] := by simp
    have hexists : forall j, j ∈ first ++ [last] -> j ≠ nil := by
      rintro j hj rfl
      rcases hfirst.exists_links hj with ⟨_, _, hnone⟩
      rw [hnil] at hnone
      cases hnone
    have hnext : next ∉ first ++ [last] := by
      intro hmem
      cases rest with
      | nil => exact hexists next hmem hsecond
      | cons r rest =>
          exact hrest next hmem (by rw [hsecond.left]; exact List.mem_cons_self ..)
    have hlastFirst : last ∉ first := by
      intro hmem
      rw [List.nodup_append] at hpath
      exact hpath.right.right last hmem last (List.mem_cons_self ..) rfl
    rw [if_neg (hexists last hlast), Doubly.append_iff, List.getLastD_concat]
    exact ⟨next, Doubly.unlinked_first hlastFirst hi hnext hfirst,
      Doubly.unlinked_rest hnil (Or.inr (hrest last hlast)) hirest hsecond⟩

end Writes

end Foundation
end MyLibs
