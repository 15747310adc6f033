import Loraterm.ProcessProgress
import Loraterm.StreamShutdown

/-!
# How the process ends

A request to terminate or an interrupt always ends the process: the loop gets out of itself without
the stream task and the sessions, and the wait that follows is bounded.  Nothing else ends it but a
handler that cannot be installed, a frame on which parsing panics and an input channel without
slots.
-/

namespace Loraterm

open Utf8Text Mpsc WatchChannel Execution

namespace SignalTask

/-- A signal that asks the process to end is pending or became an order. -/
def Heard (task : SignalTask) : Prop :=
  task.pending .terminate = true ∨ task.pending .interrupt = true ∨ task.Orders

variable {task next : SignalTask} {action : SignalAction}

theorem Heard.of_orders (heard : task.Heard)
    (terminate : task.pending .terminate = true → next.pending .terminate = true)
    (interrupt : task.pending .interrupt = true → next.pending .interrupt = true)
    (orders : task.Orders → next.Orders) : next.Heard :=
  heard.imp terminate (Or.imp interrupt orders)

theorem Heard.step (heard : task.Heard) (sound : task.Sound) (stepped : TaskStep task action next) :
    next.Heard := by
  cases stepped with
  | installed installing =>
      refine heard.of_orders id id ?_
      rintro (sending | waiting | ⟨ended, -⟩)
      · rw [installing] at sending
        cases sending
      · exact .inr (.inl waiting)
      · rw [installing] at ended
        cases ended
  | failed installing =>
      refine heard.of_orders id id ?_
      rintro (sending | waiting | ⟨ended, -⟩)
      · rw [installing] at sending
        cases sending
      · exact .inr (.inl waiting)
      · rw [installing] at ended
        cases ended
  | @took kind waiting pending =>
      cases kind with
      | hangup =>
          refine heard.of_orders (by simp [take]) (by simp [take]) ?_
          rintro (sending | queued | ⟨ended, -⟩)
          · rw [waiting] at sending
            cases sending
          · exact .inr (.inl queued)
          · rw [waiting] at ended
            cases ended
      | terminate => exact .inr (.inr (.inl rfl))
      | interrupt => exact .inr (.inr (.inl rfl))
  | reloading sending sent =>
      obtain ⟨-, -, -, -, items_eq, -⟩ := Channel.trySend_ok sent
      refine heard.of_orders id id ?_
      rintro (other | waiting | ⟨ended, -⟩)
      · rw [sending] at other
        cases other
      · exact .inr (.inl (by rw [items_eq]; exact List.mem_append_left _ waiting))
      · rw [sending] at ended
        cases ended
  | stopping sending sent =>
      obtain ⟨-, -, -, -, items_eq, -⟩ := Channel.trySend_ok sent
      exact .inr (.inr (.inr (.inl (by simp [finish, Channel.dropSender, items_eq]))))
  | refused sending closed =>
      rw [sound.receiving] at closed
      cases closed

/-- A signal that arrives is pending. -/
theorem heard_of_raise {kind : SignalKind} (heard : task.Asked → task.Heard)
    (raised : task.raise kind = some next) (asked : next.Asked) : next.Heard := by
  obtain ⟨-, rfl⟩ := raise_eq_some raised
  cases kind with
  | hangup =>
      have before : task.Asked := by simpa [Asked] using asked
      exact (heard before).of_orders (by simp) (by simp) id
  | terminate => exact .inl (by simp)
  | interrupt => exact .inr (.inl (by simp))

end SignalTask

namespace Process

variable {strip : List UInt8 → List UInt8} {reader : JsonReader}
  {parseToml : Text → Except Text WhitelistFile} {path : Text} {process next final : Process}
  {action : ProcessAction} {later : List ProcessAction}

/-! ## Every request to end is heard -/

/-- What holds of a process that was asked to end. -/
structure Attentive (process : Process) : Prop where
  sound : process.signals.Sound
  heard : process.signals.Asked → process.signals.Heard ∨ process.daemon.phase.inLoop = false
  leftAt : process.leftAt ≤ process.stream.clock

theorem clock_of_own {stream after : SseStream} {act : StreamAction} (own : act.own = true)
    (stepped : SseStream.StreamStep reader stream act after) : after.clock = stream.clock := by
  cases stepped with
  | accepted listening =>
      rw [SseStream.accept]
      split <;> rfl
  | waited duration => cases own
  | _ => rfl

theorem leftAt_of_step (stepped : ProcessStep strip reader parseToml path process action next)
    (leftAt : process.leftAt ≤ process.stream.clock) : next.leftAt ≤ next.stream.clock := by
  cases stepped with
  | ordered => exact Nat.le_refl _
  | unsignalled => exact Nat.le_refl _
  | unfed => exact Nat.le_refl _
  | streamed own moved =>
      have same := clock_of_own own (SseStream.streamStep_of_step moved)
      exact leftAt.trans same.ge
  | waited duration => exact leftAt.trans (Nat.le_add_right _ _)
  | _ => exact leftAt

theorem Attentive.step (attentive : process.Attentive)
    (stepped : ProcessStep strip reader parseToml path process action next) : next.Attentive where
  sound := sound_signals_of_step attentive.sound stepped
  leftAt := leftAt_of_step stepped attentive.leftAt
  heard := by
    intro asked
    cases still : next.daemon.phase.inLoop with
    | false => exact .inr rfl
    | true =>
        have within := inLoop_before stepped still
        have heard_before : process.signals.Asked → process.signals.Heard := fun before =>
          (attentive.heard before).resolve_right (by simp [within])
        left
        cases stepped with
        | reloaded running polling taken =>
            obtain ⟨items_eq, -⟩ := Channel.recv_eq_some taken
            refine (heard_before asked).of_orders id id ?_
            rintro (sending | waiting | ended)
            · exact .inl sending
            · rw [items_eq] at waiting
              exact .inr (.inl (by simpa using waiting))
            · exact .inr (.inr ended)
        | ordered => cases still
        | signalled moved =>
            have task_step := SignalTask.taskStep_of_step moved
            have before : process.signals.Asked := by cases task_step <;> exact asked
            exact (heard_before before).step attentive.sound task_step
        | raised moved => exact SignalTask.heard_of_raise heard_before moved asked
        | unsignalled => cases still
        | unfed => cases still
        | _ => exact heard_before asked

theorem Reaches.sound {terminal : Option Terminal} {unixSecs : Nat}
    (reaches : Reaches strip reader parseToml path terminal unixSecs process next)
    (sound : process.signals.Sound) : next.signals.Sound :=
  @Leads.invariant _ _ _ _ _ _ (fun process => process.signals.Sound) reaches.leads
    (fun _ _ _ sound _ stepped => sound_signals_of_step sound (processStep_of_step stepped).2) sound

/-- Steps of the main task and of the signal task, with given answers of the outside, and the passing
of time. -/
def Ending (terminal : Option Terminal) (unixSecs : Nat) : ProcessAction → Prop
  | .finish => True
  | .wait _ => True
  | action => Attending terminal unixSecs action

end Process

end Loraterm
