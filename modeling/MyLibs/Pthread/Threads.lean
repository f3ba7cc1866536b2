import Mathlib.Logic.Relation
import MyLibs.Foundation.SoleOwners
import MyLibs.Platform

/-!
# Threads that are created and joined

`pthread_create_base`, `pthread_start` and `pthread_join_base` of `my_pthread.c`. The
creator gives its handler and argument to the new thread in a block from `malloc`, which
the new thread frees; the handle of the thread is closed by the creator, or it is kept
for `pthread_join_with_handle`. Each step below is one access to the block, one call of
the system or one return.
-/

namespace MyLibs
namespace Pthread

open Foundation

structure ThreadStartParameter (handler argument : Type _) where
  func : handler
  arg : argument

/-- The blocks `malloc` has given out. -/
abbrev Blocks (handler argument : Type _) := Ptr -> Option (ThreadStartParameter handler argument)

/-- Where a call of `pthread_create_base` is. -/
inductive CreatePc where
  | before
  | allocates
  | storesFunc (parameter : Ptr)
  | storesArg (parameter : Ptr)
  /-- Before `_beginthreadex`. -/
  | begins (parameter : Ptr)
  /-- `_beginthreadex` has failed. -/
  | frees (parameter : Ptr)
  /-- Before the handle is closed or stored. -/
  | decides
  | returned (ret : Nat)

/-- Where the new thread is in `pthread_start`. -/
inductive StartPc (handler argument : Type _) where
  | absent
  | readsFunc (param : Ptr)
  | readsArg (param : Ptr) (func : handler)
  | frees (param : Ptr) (func : handler) (arg : argument)
  | calls (func : handler) (arg : argument)
  | runs
  | ended

/-- Where a call of `pthread_join_with_handle` is. -/
inductive JoinPc where
  | outside
  | waits
  /-- Before `CloseHandle`, to return 0 or 1 after it. -/
  | closes (ret : Nat)
  | returned (ret : Nat)

/-- What a caller asks `pthread_create_base` for; `outHandle` tells whether it passes a
place for the handle. -/
structure Request (handler argument : Type _) where
  func : handler
  param : argument
  outHandle : Bool

structure Activity (handler argument : Type _) where
  create : CreatePc
  start : StartPc handler argument
  join : JoinPc
  /-- The handles of the thread that are open. -/
  openHandles : Nat
  /-- The calls of handlers that the new thread has made. -/
  called : List (handler × argument)

variable {handler argument call : Type _}

def Activity.init : Activity handler argument where
  create := .before
  start := .absent
  join := .outside
  openHandles := 0
  called := []

structure Threads (handler argument call : Type _) where
  activity : call -> Activity handler argument
  blocks : Blocks handler argument

def Threads.init : Threads handler argument call where
  activity := fun _ => .init
  blocks := fun _ => none

inductive Move (request : Request handler argument) :
    Activity handler argument -> Blocks handler argument ->
      Activity handler argument -> Blocks handler argument -> Prop where
  | call {a : Activity handler argument} {blocks : Blocks handler argument} :
      a.create = .before -> Move request a blocks { a with create := .allocates } blocks
  | mallocFails {a : Activity handler argument} {blocks : Blocks handler argument} :
      a.create = .allocates -> Move request a blocks { a with create := .returned 1 } blocks
  | malloc {a : Activity handler argument} {blocks : Blocks handler argument} (p : Ptr)
      (garbage : ThreadStartParameter handler argument) :
      a.create = .allocates -> blocks p = none ->
      Move request a blocks { a with create := .storesFunc p }
        (Function.update blocks p (some garbage))
  | storeFunc {a : Activity handler argument} {blocks : Blocks handler argument} {p : Ptr}
      {parameter : ThreadStartParameter handler argument} :
      a.create = .storesFunc p -> blocks p = some parameter ->
      Move request a blocks { a with create := .storesArg p }
        (Function.update blocks p (some { parameter with func := request.func }))
  | storeArg {a : Activity handler argument} {blocks : Blocks handler argument} {p : Ptr}
      {parameter : ThreadStartParameter handler argument} :
      a.create = .storesArg p -> blocks p = some parameter ->
      Move request a blocks { a with create := .begins p }
        (Function.update blocks p (some { parameter with arg := request.param }))
  | beginFails {a : Activity handler argument} {blocks : Blocks handler argument} {p : Ptr} :
      a.create = .begins p -> Move request a blocks { a with create := .frees p } blocks
  | begin {a : Activity handler argument} {blocks : Blocks handler argument} {p : Ptr} :
      a.create = .begins p ->
      Move request a blocks
        { a with create := .decides, start := .readsFunc p, openHandles := a.openHandles + 1 }
        blocks
  | freeParameter {a : Activity handler argument} {blocks : Blocks handler argument}
      {p : Ptr} {parameter : ThreadStartParameter handler argument} :
      a.create = .frees p -> blocks p = some parameter ->
      Move request a blocks { a with create := .returned 1 } (Function.update blocks p none)
  | closeOwn {a : Activity handler argument} {blocks : Blocks handler argument} :
      a.create = .decides -> request.outHandle = false ->
      Move request a blocks
        { a with create := .returned 0, openHandles := a.openHandles - 1 } blocks
  | storeHandle {a : Activity handler argument} {blocks : Blocks handler argument} :
      a.create = .decides -> request.outHandle = true ->
      Move request a blocks { a with create := .returned 0 } blocks
  | readFunc {a : Activity handler argument} {blocks : Blocks handler argument} {p : Ptr}
      {parameter : ThreadStartParameter handler argument} :
      a.start = .readsFunc p -> blocks p = some parameter ->
      Move request a blocks { a with start := .readsArg p parameter.func } blocks
  | readArg {a : Activity handler argument} {blocks : Blocks handler argument} {p : Ptr}
      {func : handler} {parameter : ThreadStartParameter handler argument} :
      a.start = .readsArg p func -> blocks p = some parameter ->
      Move request a blocks { a with start := .frees p func parameter.arg } blocks
  | freeParam {a : Activity handler argument} {blocks : Blocks handler argument} {p : Ptr}
      {func : handler} {arg : argument} {parameter : ThreadStartParameter handler argument} :
      a.start = .frees p func arg -> blocks p = some parameter ->
      Move request a blocks { a with start := .calls func arg } (Function.update blocks p none)
  | callFunc {a : Activity handler argument} {blocks : Blocks handler argument}
      {func : handler} {arg : argument} :
      a.start = .calls func arg ->
      Move request a blocks { a with start := .runs, called := (func, arg) :: a.called } blocks
  | funcReturns {a : Activity handler argument} {blocks : Blocks handler argument} :
      a.start = .runs -> Move request a blocks { a with start := .ended } blocks
  /-- The caller joins with the handle it was given, once. -/
  | join {a : Activity handler argument} {blocks : Blocks handler argument} :
      a.create = .returned 0 -> request.outHandle = true -> a.join = .outside ->
      Move request a blocks { a with join := .waits } blocks
  | waitEnds {a : Activity handler argument} {blocks : Blocks handler argument} :
      a.join = .waits -> a.start = .ended ->
      Move request a blocks { a with join := .closes 0 } blocks
  | waitFails {a : Activity handler argument} {blocks : Blocks handler argument} :
      a.join = .waits -> Move request a blocks { a with join := .closes 1 } blocks
  | closeJoined {a : Activity handler argument} {blocks : Blocks handler argument}
      {ret : Nat} :
      a.join = .closes ret ->
      Move request a blocks
        { a with join := .returned ret, openHandles := a.openHandles - 1 } blocks

/-!
## The block

The block belongs to the creator until the thread begins, and to the thread from then on.
-/

def CreatePc.parameter : CreatePc -> Option Ptr
  | .storesFunc p => some p
  | .storesArg p => some p
  | .begins p => some p
  | .frees p => some p
  | _ => none

def StartPc.parameter : StartPc handler argument -> Option Ptr
  | .readsFunc p => some p
  | .readsArg p _ => some p
  | .frees p _ _ => some p
  | _ => none

def Activity.parameter (a : Activity handler argument) : Option Ptr :=
  a.create.parameter.or a.start.parameter

def Request.parameter (request : Request handler argument) :
    ThreadStartParameter handler argument where
  func := request.func
  arg := request.param

/-!
## Phases
-/

variable {request : Request handler argument} {a a' : Activity handler argument}
  {blocks blocks' : Blocks handler argument}

inductive Creating (request : Request handler argument) (blocks : Blocks handler argument) :
    CreatePc -> Prop where
  | before : Creating request blocks .before
  | allocates : Creating request blocks .allocates
  | storesFunc {p : Ptr} {parameter : ThreadStartParameter handler argument} :
      blocks p = some parameter -> Creating request blocks (.storesFunc p)
  | storesArg {p : Ptr} {parameter : ThreadStartParameter handler argument} :
      blocks p = some parameter -> parameter.func = request.func ->
      Creating request blocks (.storesArg p)
  | begins {p : Ptr} : blocks p = some request.parameter -> Creating request blocks (.begins p)
  | frees {p : Ptr} : blocks p = some request.parameter -> Creating request blocks (.frees p)
  | failed : Creating request blocks (.returned 1)

inductive Started (request : Request handler argument) (blocks : Blocks handler argument) :
    StartPc handler argument -> List (handler × argument) -> Prop where
  | readsFunc {p : Ptr} :
      blocks p = some request.parameter -> Started request blocks (.readsFunc p) []
  | readsArg {p : Ptr} :
      blocks p = some request.parameter -> Started request blocks (.readsArg p request.func) []
  | frees {p : Ptr} :
      blocks p = some request.parameter ->
      Started request blocks (.frees p request.func request.param) []
  | calls : Started request blocks (.calls request.func request.param) []
  | runs : Started request blocks .runs [(request.func, request.param)]
  | ended : Started request blocks .ended [(request.func, request.param)]

inductive Handled (request : Request handler argument) (start : StartPc handler argument) :
    CreatePc -> JoinPc -> Nat -> Prop where
  | decides : Handled request start .decides .outside 1
  | closed : request.outHandle = false -> Handled request start (.returned 0) .outside 0
  | kept : request.outHandle = true -> Handled request start (.returned 0) .outside 1
  | waits : request.outHandle = true -> Handled request start (.returned 0) .waits 1
  | closes {ret : Nat} :
      request.outHandle = true -> (ret = 0 -> start = .ended) ->
      Handled request start (.returned 0) (.closes ret) 1
  | joined {ret : Nat} :
      request.outHandle = true -> (ret = 0 -> start = .ended) ->
      Handled request start (.returned 0) (.returned ret) 0

namespace Activity

inductive Fits (request : Request handler argument) (blocks : Blocks handler argument)
    (a : Activity handler argument) : Prop where
  | creating :
      Creating request blocks a.create -> a.start = .absent -> a.join = .outside ->
      a.openHandles = 0 -> a.called = [] -> Fits request blocks a
  | begun :
      Started request blocks a.start a.called ->
      Handled request a.start a.create a.join a.openHandles -> Fits request blocks a

theorem fits_init : Fits request blocks Activity.init :=
  .creating .before rfl rfl rfl rfl

end Activity

section Inversion

variable {start : StartPc handler argument} {create : CreatePc} {join : JoinPc}
  {openHandles ret : Nat} {called : List (handler × argument)} {p : Ptr} {func : handler}
  {arg : argument}

theorem Started.readsFunc_inv (h : Started request blocks (.readsFunc p) called) :
    blocks p = some request.parameter ∧ called = [] := by
  cases h with
  | readsFunc hp => exact ⟨hp, rfl⟩

theorem Started.readsArg_inv (h : Started request blocks (.readsArg p func) called) :
    blocks p = some request.parameter ∧ func = request.func ∧ called = [] := by
  cases h with
  | readsArg hp => exact ⟨hp, rfl, rfl⟩

theorem Started.frees_inv (h : Started request blocks (.frees p func arg) called) :
    func = request.func ∧ arg = request.param ∧ called = [] := by
  cases h with
  | frees hp => exact ⟨rfl, rfl, rfl⟩

theorem Started.calls_inv (h : Started request blocks (.calls func arg) called) :
    func = request.func ∧ arg = request.param ∧ called = [] := by
  cases h
  exact ⟨rfl, rfl, rfl⟩

theorem Started.runs_inv (h : Started request blocks .runs called) :
    called = [(request.func, request.param)] := by
  cases h
  rfl

theorem Handled.create_inv (h : Handled request start create join openHandles) :
    create = .decides ∨ create = .returned 0 := by
  cases h with
  | decides => exact Or.inl rfl
  | _ => exact Or.inr rfl

theorem Handled.decides_inv (h : Handled request start .decides join openHandles) :
    join = .outside ∧ openHandles = 1 := by
  cases h
  exact ⟨rfl, rfl⟩

theorem Handled.kept_inv (h : Handled request start create .outside openHandles)
    (hcreate : create = .returned 0) (hout : request.outHandle = true) : openHandles = 1 := by
  cases h with
  | decides => rfl
  | closed hclosed =>
      rw [hout] at hclosed
      cases hclosed
  | kept _ => rfl

theorem Handled.waits_inv (h : Handled request start create .waits openHandles) :
    create = .returned 0 ∧ request.outHandle = true ∧ openHandles = 1 := by
  cases h with
  | waits hout => exact ⟨rfl, hout, rfl⟩

theorem Handled.closes_inv (h : Handled request start create (.closes ret) openHandles) :
    create = .returned 0 ∧ request.outHandle = true ∧ openHandles = 1 ∧
      (ret = 0 -> start = .ended) := by
  cases h with
  | closes hout hended => exact ⟨rfl, hout, rfl, hended⟩

theorem Handled.parameter (h : Handled request start create join openHandles) :
    create.parameter = none := by
  rcases h.create_inv with hcreate | hcreate
  all_goals
    rw [hcreate]
    rfl

end Inversion

theorem Handled.move {start start' : StartPc handler argument} {create : CreatePc}
    {join : JoinPc} {openHandles : Nat} (h : Handled request start create join openHandles)
    (hstart : start ≠ .ended) : Handled request start' create join openHandles := by
  cases h with
  | decides => exact .decides
  | closed hout => exact .closed hout
  | kept hout => exact .kept hout
  | waits hout => exact .waits hout
  | closes hout hended => exact .closes hout fun hret => absurd (hended hret) hstart
  | joined hout hended => exact .joined hout fun hret => absurd (hended hret) hstart

theorem Creating.congr {create : CreatePc} (h : Creating request blocks create)
    (hblocks : forall p, create.parameter = some p -> blocks' p = blocks p) :
    Creating request blocks' create := by
  cases h with
  | before => exact .before
  | allocates => exact .allocates
  | storesFunc hp => exact .storesFunc ((hblocks _ rfl).trans hp)
  | storesArg hp hfunc => exact .storesArg ((hblocks _ rfl).trans hp) hfunc
  | begins hp => exact .begins ((hblocks _ rfl).trans hp)
  | frees hp => exact .frees ((hblocks _ rfl).trans hp)
  | failed => exact .failed

theorem Started.congr {start : StartPc handler argument} {called : List (handler × argument)}
    (h : Started request blocks start called)
    (hblocks : forall p, start.parameter = some p -> blocks' p = blocks p) :
    Started request blocks' start called := by
  cases h with
  | readsFunc hp => exact .readsFunc ((hblocks _ rfl).trans hp)
  | readsArg hp => exact .readsArg ((hblocks _ rfl).trans hp)
  | frees hp => exact .frees ((hblocks _ rfl).trans hp)
  | calls => exact .calls
  | runs => exact .runs
  | ended => exact .ended

namespace Activity

theorem parameter_of_create {p : Ptr} (h : a.create.parameter = some p) :
    a.parameter = some p := by
  rw [Activity.parameter, h]
  rfl

theorem parameter_of_start (h : a.create.parameter = none) :
    a.parameter = a.start.parameter := by
  rw [Activity.parameter, h]
  rfl

theorem Fits.congr (h : a.Fits request blocks)
    (hblocks : forall p, a.parameter = some p -> blocks' p = blocks p) :
    a.Fits request blocks' := by
  cases h with
  | creating hcreate hstart hjoin hopen hcalled =>
      refine .creating (hcreate.congr fun p hp => ?_) hstart hjoin hopen hcalled
      exact hblocks p (parameter_of_create hp)
  | begun hstart hhandled =>
      refine .begun (hstart.congr fun p hp => ?_) hhandled
      apply hblocks p
      rw [parameter_of_start hhandled.parameter]
      exact hp

theorem Fits.creator (h : a.Fits request blocks) {create : CreatePc} (hpc : a.create = create)
    (hdecides : create ≠ .decides) (hreturned : create ≠ .returned 0) :
    Creating request blocks create ∧ a.start = .absent ∧ a.join = .outside ∧
      a.openHandles = 0 ∧ a.called = [] := by
  cases h with
  | creating hcreate hstart hjoin hopen hcalled =>
      rw [hpc] at hcreate
      exact ⟨hcreate, hstart, hjoin, hopen, hcalled⟩
  | begun hstart hhandled =>
      rw [hpc] at hhandled
      rcases hhandled.create_inv with hcreate | hcreate
      · exact absurd hcreate hdecides
      · exact absurd hcreate hreturned

theorem Fits.thread (h : a.Fits request blocks) {start : StartPc handler argument}
    (hpc : a.start = start) (habsent : start ≠ .absent) :
    Started request blocks start a.called ∧
      Handled request start a.create a.join a.openHandles := by
  cases h with
  | creating hcreate hstart hjoin hopen hcalled => exact absurd (hpc.symm.trans hstart) habsent
  | begun hstart hhandled =>
      rw [hpc] at hstart hhandled
      exact ⟨hstart, hhandled⟩

theorem Fits.joiner (h : a.Fits request blocks) {join : JoinPc} (hpc : a.join = join)
    (houtside : join ≠ .outside) :
    Started request blocks a.start a.called ∧
      Handled request a.start a.create join a.openHandles := by
  cases h with
  | creating hcreate hstart hjoin hopen hcalled => exact absurd (hpc.symm.trans hjoin) houtside
  | begun hstart hhandled =>
      rw [hpc] at hhandled
      exact ⟨hstart, hhandled⟩

theorem Fits.begun_of (h : a.Fits request blocks) {create : CreatePc} (hpc : a.create = create)
    (hcreate : create = .decides ∨ create = .returned 0) :
    Started request blocks a.start a.called ∧
      Handled request a.start create a.join a.openHandles := by
  cases h with
  | creating hcreating hstart hjoin hopen hcalled =>
      rw [hpc] at hcreating
      rcases hcreate with hcreate | hcreate
      all_goals
        rw [hcreate] at hcreating
        cases hcreating
  | begun hstart hhandled =>
      rw [hpc] at hhandled
      exact ⟨hstart, hhandled⟩

end Activity

/-- The activity that moves stays in its phases. -/
theorem Move.fits (h : a.Fits request blocks) (hmove : Move request a blocks a' blocks') :
    a'.Fits request blocks' := by
  cases hmove with
  | call hpc =>
      rcases h.creator hpc nofun nofun with ⟨_, hstart, hjoin, hopen, hcalled⟩
      exact .creating .allocates hstart hjoin hopen hcalled
  | mallocFails hpc =>
      rcases h.creator hpc nofun nofun with ⟨_, hstart, hjoin, hopen, hcalled⟩
      exact .creating .failed hstart hjoin hopen hcalled
  | malloc p garbage hpc hfree =>
      rcases h.creator hpc nofun nofun with ⟨_, hstart, hjoin, hopen, hcalled⟩
      exact .creating (.storesFunc (Function.update_self ..)) hstart hjoin hopen hcalled
  | storeFunc hpc hp =>
      rcases h.creator hpc nofun nofun with ⟨_, hstart, hjoin, hopen, hcalled⟩
      exact .creating (.storesArg (Function.update_self ..) rfl) hstart hjoin hopen hcalled
  | @storeArg p parameter hpc hp =>
      rcases h.creator hpc nofun nofun with ⟨hcreating, hstart, hjoin, hopen, hcalled⟩
      have hfilled : { parameter with arg := request.param } = request.parameter := by
        cases hcreating with
        | storesArg hp' hfunc =>
            cases Option.some.inj (hp.symm.trans hp')
            rw [hfunc]
            rfl
      refine .creating (.begins ?_) hstart hjoin hopen hcalled
      rw [Function.update_self, hfilled]
  | beginFails hpc =>
      rcases h.creator hpc nofun nofun with ⟨hcreating, hstart, hjoin, hopen, hcalled⟩
      cases hcreating with
      | begins hp => exact .creating (.frees hp) hstart hjoin hopen hcalled
  | begin hpc =>
      rcases h.creator hpc nofun nofun with ⟨hcreating, hstart, hjoin, hopen, hcalled⟩
      cases hcreating with
      | begins hp =>
          refine .begun ?_ ?_
          · show Started request blocks _ a.called
            rw [hcalled]
            exact .readsFunc hp
          · show Handled request _ _ a.join (a.openHandles + 1)
            rw [hjoin, hopen]
            exact .decides
  | freeParameter hpc hp =>
      rcases h.creator hpc nofun nofun with ⟨_, hstart, hjoin, hopen, hcalled⟩
      exact .creating .failed hstart hjoin hopen hcalled
  | closeOwn hpc hout =>
      rcases h.begun_of hpc (Or.inl rfl) with ⟨hstart, hhandled⟩
      rcases hhandled.decides_inv with ⟨hjoin, hopen⟩
      refine .begun hstart ?_
      show Handled request a.start _ a.join (a.openHandles - 1)
      rw [hjoin, hopen]
      exact .closed hout
  | storeHandle hpc hout =>
      rcases h.begun_of hpc (Or.inl rfl) with ⟨hstart, hhandled⟩
      rcases hhandled.decides_inv with ⟨hjoin, hopen⟩
      refine .begun hstart ?_
      show Handled request a.start _ a.join a.openHandles
      rw [hjoin, hopen]
      exact .kept hout
  | readFunc hpc hp =>
      rcases h.thread hpc nofun with ⟨hstart, hhandled⟩
      rcases hstart.readsFunc_inv with ⟨hparameter, hcalled⟩
      cases Option.some.inj (hp.symm.trans hparameter)
      refine .begun ?_ (hhandled.move nofun)
      show Started request blocks _ a.called
      rw [hcalled]
      exact .readsArg hparameter
  | readArg hpc hp =>
      rcases h.thread hpc nofun with ⟨hstart, hhandled⟩
      rcases hstart.readsArg_inv with ⟨hparameter, hfunc, hcalled⟩
      cases Option.some.inj (hp.symm.trans hparameter)
      refine .begun ?_ (hhandled.move nofun)
      show Started request blocks _ a.called
      rw [hcalled, hfunc]
      exact .frees hparameter
  | freeParam hpc hp =>
      rcases h.thread hpc nofun with ⟨hstart, hhandled⟩
      rcases hstart.frees_inv with ⟨hfunc, harg, hcalled⟩
      refine .begun ?_ (hhandled.move nofun)
      show Started request _ _ a.called
      rw [hcalled, hfunc, harg]
      exact .calls
  | callFunc hpc =>
      rcases h.thread hpc nofun with ⟨hstart, hhandled⟩
      rcases hstart.calls_inv with ⟨hfunc, harg, hcalled⟩
      refine .begun ?_ (hhandled.move nofun)
      show Started request blocks _ (_ :: a.called)
      rw [hcalled, hfunc, harg]
      exact .runs
  | funcReturns hpc =>
      rcases h.thread hpc nofun with ⟨hstart, hhandled⟩
      refine .begun ?_ (hhandled.move nofun)
      show Started request blocks _ a.called
      rw [hstart.runs_inv]
      exact .ended
  | join hcreate hout hpc =>
      rcases h.begun_of hcreate (Or.inr rfl) with ⟨hstart, hhandled⟩
      rw [hpc] at hhandled
      refine .begun hstart ?_
      show Handled request a.start a.create _ a.openHandles
      rw [hcreate, hhandled.kept_inv rfl hout]
      exact .waits hout
  | waitEnds hpc hended =>
      rcases h.joiner hpc nofun with ⟨hstart, hhandled⟩
      rcases hhandled.waits_inv with ⟨hcreate, hout, hopen⟩
      refine .begun hstart ?_
      show Handled request a.start a.create _ a.openHandles
      rw [hcreate, hopen]
      exact .closes hout fun _ => hended
  | waitFails hpc =>
      rcases h.joiner hpc nofun with ⟨hstart, hhandled⟩
      rcases hhandled.waits_inv with ⟨hcreate, hout, hopen⟩
      refine .begun hstart ?_
      show Handled request a.start a.create _ a.openHandles
      rw [hcreate, hopen]
      exact .closes hout fun hret => absurd hret Nat.one_ne_zero
  | closeJoined hpc =>
      rcases h.joiner hpc nofun with ⟨hstart, hhandled⟩
      rcases hhandled.closes_inv with ⟨hcreate, hout, hopen, hended⟩
      refine .begun hstart ?_
      show Handled request a.start a.create _ (a.openHandles - 1)
      rw [hcreate, hopen]
      exact .joined hout hended

/-- The activity that moves writes to its own block only. -/
theorem Move.owner (h : a.Fits request blocks) (hmove : Move request a blocks a' blocks') :
    OwnerStep a.parameter blocks a'.parameter blocks' := by
  unfold Activity.parameter
  cases hmove with
  | call hpc =>
      rw [hpc]
      exact .keeps
  | mallocFails hpc =>
      rw [hpc]
      exact .keeps
  | malloc p garbage hpc hfree =>
      rcases h.creator hpc nofun nofun with ⟨_, hstart, _⟩
      rw [hpc, hstart]
      exact .obtains garbage rfl hfree
  | storeFunc hpc hp =>
      rw [hpc]
      exact .writes _ rfl
  | storeArg hpc hp =>
      rw [hpc]
      exact .writes _ rfl
  | beginFails hpc =>
      rw [hpc]
      exact .keeps
  | begin hpc =>
      -- the block goes from the creator to the thread
      rw [hpc]
      exact .keeps
  | freeParameter hpc hp =>
      rcases h.creator hpc nofun nofun with ⟨_, hstart, _⟩
      rw [hpc, hstart]
      exact .gives rfl
  | closeOwn hpc hout =>
      rw [hpc]
      exact .keeps
  | storeHandle hpc hout =>
      rw [hpc]
      exact .keeps
  | readFunc hpc hp =>
      rw [hpc]
      exact .keeps
  | readArg hpc hp =>
      rw [hpc]
      exact .keeps
  | freeParam hpc hp =>
      rw [(h.thread hpc nofun).right.parameter, hpc]
      exact .gives rfl
  | callFunc hpc =>
      rw [hpc]
      exact .keeps
  | funcReturns hpc =>
      rw [hpc]
      exact .keeps
  | join hcreate hout hpc => exact .keeps
  | waitEnds hpc hended => exact .keeps
  | waitFails hpc => exact .keeps
  | closeJoined hpc => exact .keeps

variable {request : call -> Request handler argument} {s s' : Threads handler argument call}
  {c : call}

def Threads.owned (s : Threads handler argument call) (c : call) : Option Ptr :=
  (s.activity c).parameter

structure Threads.Sound (request : call -> Request handler argument)
    (s : Threads handler argument call) : Prop where
  fits : forall c, (s.activity c).Fits (request c) s.blocks
  owners : SoleOwners s.owned s.blocks

theorem Threads.sound_init : Sound request (Threads.init : Threads handler argument call) where
  fits _ := Activity.fits_init
  owners := SoleOwners.empty

variable [DecidableEq call]

def ThreadsStep (request : call -> Request handler argument)
    (s s' : Threads handler argument call) : Prop :=
  exists c a' blocks', Move (request c) (s.activity c) s.blocks a' blocks' ∧
    s' = { activity := Function.update s.activity c a', blocks := blocks' }

def ThreadsReachable (request : call -> Request handler argument)
    (s : Threads handler argument call) : Prop :=
  Relation.ReflTransGen (ThreadsStep request) Threads.init s

namespace Threads

theorem Sound.step (h : s.Sound request) (hstep : ThreadsStep request s s') :
    s'.Sound request := by
  rcases hstep with ⟨c, a', blocks', hmove, rfl⟩
  have howner : OwnerStep (s.owned c) s.blocks a'.parameter blocks' := hmove.owner (h.fits c)
  constructor
  · intro d
    show Activity.Fits (request d) blocks' (Function.update s.activity c a' d)
    by_cases hdc : d = c
    · rw [hdc, Function.update_self]
      exact hmove.fits (h.fits c)
    · rw [Function.update_of_ne hdc]
      exact (h.fits d).congr fun p hp => h.owners.other howner hdc hp
  · have howned : (Threads.mk (Function.update s.activity c a') blocks').owned =
        Function.update s.owned c a'.parameter := by
      funext d
      show (Function.update s.activity c a' d).parameter = _
      by_cases hdc : d = c
      · rw [hdc, Function.update_self, Function.update_self]
      · rw [Function.update_of_ne hdc, Function.update_of_ne hdc]
        rfl
    show SoleOwners (Threads.mk (Function.update s.activity c a') blocks').owned blocks'
    rw [howned]
    exact h.owners.step howner

theorem Sound.run (h : ThreadsReachable request s) : s.Sound request := by
  induction h with
  | refl => exact sound_init
  | tail _ hstep ih => exact ih.step hstep

end Threads

end Pthread
end MyLibs
