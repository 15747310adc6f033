import Loraterm.Library.Execution
import Loraterm.Library.Mpsc
import Mathlib.Logic.Function.Basic

/-!
# The signal task

A task turns Unix signals into orders for the main loop: a hangup into a reload, a request to
terminate or an interrupt into a shutdown.  Signals of one kind that arrive before the task looks
are one.  A signal that has no handler yet kills the process, and there are no further steps.
-/

namespace Loraterm

open Mpsc Execution

/-- An order for the main loop. -/
inductive Signal
  | reload
  | shutdown
  deriving DecidableEq, Repr

/-- The Unix signals that are handled. -/
inductive SignalKind
  | hangup
  | terminate
  | interrupt
  deriving DecidableEq, Repr

/-- The order a Unix signal stands for. -/
def SignalKind.order : SignalKind → Signal
  | .hangup => .reload
  | .terminate => .shutdown
  | .interrupt => .shutdown

/-- Where the signal task is. -/
inductive SignalPhase
  /-- About to install the handlers. -/
  | installing
  | waiting
  /-- Waiting for a slot of the channel. -/
  | sending (signal : Signal)
  | ended
  deriving DecidableEq, Repr

/-- The signal task with its end of the channel. -/
structure SignalTask where
  phase : SignalPhase
  /-- Whether every handler is installed. -/
  handled : Bool
  /-- Whether a signal of a kind arrived since the task last took one. -/
  pending : SignalKind → Bool
  /-- Whether a signal of a kind ever arrived. -/
  raised : SignalKind → Bool
  channel : Channel Signal

/-- The steps of the signal task. -/
inductive SignalAction
  /-- Install the handlers, up to the first that fails. -/
  | install (failing : Option SignalKind)
  | take (kind : SignalKind)
  | send
  deriving DecidableEq, Repr

namespace SignalTask

/-- Slots of the channel. -/
def capacity : Nat := 4

/-- The task as it is spawned. -/
def new : SignalTask where
  phase := .installing
  handled := false
  pending _ := false
  raised _ := false
  channel := .empty capacity

/-- The task ends and drops its end of the channel. -/
def finish (task : SignalTask) : SignalTask :=
  { task with phase := .ended, channel := task.channel.dropSender }

/-- Install the handlers; without all of them the task ends. -/
def install (task : SignalTask) (failing : Option SignalKind) : SignalTask :=
  match failing with
  | none => { task with phase := .waiting, handled := true }
  | some _ => task.finish

/-- Take a signal that arrived. -/
def take (task : SignalTask) (kind : SignalKind) : SignalTask :=
  { task with phase := .sending kind.order, pending := Function.update task.pending kind false }

/-- Pass an order on, waiting while the channel is full; the task ends after a shutdown, or when
nobody receives. -/
def send (task : SignalTask) (signal : Signal) : Option SignalTask :=
  match task.channel.trySend signal with
  | .ok channel =>
      match signal with
      | .reload => some { task with channel, phase := .waiting }
      | .shutdown => some { task with channel }.finish
  | .error .full => none
  | .error .closed => some task.finish

/-- One step of the task. -/
def step (task : SignalTask) : SignalAction → Option SignalTask
  | .install failing => if task.phase = .installing then some (task.install failing) else none
  | .take kind =>
      if task.phase = .waiting ∧ task.pending kind = true then some (task.take kind) else none
  | .send =>
      match task.phase with
      | .sending signal => task.send signal
      | _ => none

/-- A signal arrives. -/
def raise (task : SignalTask) (kind : SignalKind) : Option SignalTask :=
  if task.handled = true then
    some { task with
           pending := Function.update task.pending kind true
           raised := Function.update task.raised kind true }
  else none

/-- A signal that arrives is pending, and all that was pending is. -/
theorem raise_eq_some {task next : SignalTask} {kind : SignalKind}
    (raised : task.raise kind = some next) :
    task.handled = true ∧
      next = { task with
               pending := Function.update task.pending kind true
               raised := Function.update task.raised kind true } := by
  simp only [raise] at raised
  split at raised
  · rename_i handled
    exact ⟨handled, (Option.some.inj raised).symm⟩
  · cases raised

/-- A mark that is set stays set. -/
theorem update_true_of_true {marks : SignalKind → Bool} {other : SignalKind} (kind : SignalKind)
    (set : marks other = true) : Function.update marks kind true other = true := by
  by_cases here : other = kind
  · rw [here, Function.update_self]
  · rw [Function.update_of_ne here, set]

/-! ## Kinds of steps -/

/-- The kinds of steps of the signal task. -/
inductive TaskStep (task : SignalTask) : SignalAction → SignalTask → Prop
  | installed (installing : task.phase = .installing) :
      TaskStep task (.install none) { task with phase := .waiting, handled := true }
  | failed {kind : SignalKind} (installing : task.phase = .installing) :
      TaskStep task (.install (some kind)) task.finish
  | took {kind : SignalKind} (waiting : task.phase = .waiting) (pending : task.pending kind = true) :
      TaskStep task (.take kind) (task.take kind)
  | reloading {channel : Channel Signal} (sending : task.phase = .sending .reload)
      (sent : task.channel.trySend .reload = .ok channel) :
      TaskStep task .send { task with channel, phase := .waiting }
  | stopping {channel : Channel Signal} (sending : task.phase = .sending .shutdown)
      (sent : task.channel.trySend .shutdown = .ok channel) :
      TaskStep task .send ({ task with channel }.finish)
  | refused {signal : Signal} (sending : task.phase = .sending signal)
      (closed : task.channel.receiving = false) : TaskStep task .send task.finish

theorem taskStep_of_step {task next : SignalTask} {action : SignalAction}
    (stepped : task.step action = some next) : TaskStep task action next := by
  cases action with
  | install failing =>
      simp only [step] at stepped
      split at stepped
      · rename_i installing
        obtain rfl := Option.some.inj stepped
        cases failing with
        | none => exact .installed installing
        | some kind => exact .failed installing
      · cases stepped
  | take kind =>
      simp only [step] at stepped
      split at stepped
      · rename_i enabled
        obtain rfl := Option.some.inj stepped
        exact .took enabled.1 enabled.2
      · cases stepped
  | send =>
      simp only [step] at stepped
      split at stepped
      · rename_i signal sending
        rw [send] at stepped
        split at stepped
        · rename_i sent
          cases signal with
          | reload =>
              obtain rfl := Option.some.inj stepped
              exact .reloading sending sent
          | shutdown =>
              obtain rfl := Option.some.inj stepped
              exact .stopping sending sent
        · cases stepped
        · rename_i refusal
          obtain rfl := Option.some.inj stepped
          exact .refused sending (Channel.trySend_closed refusal)
      · cases stepped

end SignalTask

end Loraterm
