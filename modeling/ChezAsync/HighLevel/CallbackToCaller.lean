import Mathlib.Tactic.Common
import ChezAsync.HighLevel.Connect
import ChezAsync.HighLevel.Modes
import ChezAsync.Runtime.AnswersRest

/-!
# From the callback to the caller (`runtime.cpp`, `rt_ffi.cpp`, `io-fs.ss`, `io-net.ss`)

A callback of libuv writes what it has been given into the fields of a task and completes it.  Some
time later, and behind any number of other callbacks, the caller wakes up and reads the fields with
the accessors.
-/

namespace ChezAsync.CallbackToCaller

open Async (Native Completion Code Datum Val Outcome Thread Handle)
open AnswersRest (Answer answer)
open Shutdown (State machine oneShotView streamsView watcherView)
open TaskCustody (Kept held)

/-! ## 1. What an operation gives -/

section
variable {R E : Type} {nat : Native} {h : Handle}

/-- The condition that `raise-io-error` raises. -/
def ioError (nat : Native) (who : String) (r : Int) : Val (Datum R E) :=
  .data (.ioError r (nat.errName r) who (nat.errStr r))

def string (s : String) : Val (Datum R E) := .data (.string s)

section
variable {c : Completion} (who : String) (hc : nat.task h = c)
include hc

end

end

/-! ## 2. The fields before the callback -/

def blank : OneShot.Out := { statbuf := none, strOut := "", names := [] }

/-- A task without a result is as `new_task` has made it. -/
def Untouched (s : State) : Prop :=
  ∀ t, s.rt.completed.results t = [] → s.oneShot.out t = blank

section
variable {s v u : State} {lost : List TaskId} {t : TaskId}

/-- The result that a step brings is the only one, and the fields are at rest. -/
theorem settled {bs : List Shutdown.Action} {r : Int} (hv : Kept v lost)
    (hmem : (t, r) ∈ v.rt.completed) (hrest : machine.runFrom v bs = some u) :
    (answer u t).results = [r] ∧ answer u t = answer v t := by
  have hr : r ∈ v.rt.completed.results t :=
    List.mem_map.mpr ⟨(t, r), List.mem_filter.mpr ⟨hmem, by simp⟩, rfl⟩
  have hone : v.rt.completed.results t = [r] := by
    have hle := hv.results_le_one t
    match hres : v.rt.completed.results t, hr, hle with
    | [r'], hr, _ => rw [List.mem_singleton.mp hr]
  have hsame := AnswersRest.answer_runFrom hv (by rw [hone]; simp) hrest
  exact ⟨(congrArg Answer.results hsame).trans hone, hsame⟩

end

/-! ## 4. What the caller gets -/

/-- A field of `uv_stat_t`, which is zero until it is filled in. -/
def statField (o : OneShot.Out) (i : Nat) : Nat := (o.statbuf.getD []).getD i 0

/-- A completed task, as the accessors of `rt_ffi.cpp` read it.  The eighth field of `uv_stat_t` is
the size, the fifteenth the seconds of the last modification, the second the mode. -/
def completion (a : Answer) (strOut : String) : Completion :=
  { result := a.results.headD 0, buffer := a.buffer, strOut, names := a.out.names
    stSize := statField a.out 7, stMtime := statField a.out 14, stMode := statField a.out 1 }

section
variable (R E : Type) (nat : Native) (h : Handle)

end

section
variable {R E : Type} {nat : Native} {h : Handle} {a : Answer} {strOut : String} {r : Int}

section
variable {q : R} {w : Thread R E} (hw : h = .task [] w.submitted)
include hw

end

end

end ChezAsync.CallbackToCaller
