import Loraterm.ProcessProgress

/-!
# A hangup is answered

From the moment a hangup arrives a reload is on its way until the loop reloads or is left.  What is
loaded is what the whitelist file contains when the loop gets to it, never what it contained before
the hangup.
-/

namespace Loraterm

open Utf8Text Mpsc WatchChannel Execution

/-- A hangup is on its way to the loop. -/
def SignalTask.Coming (task : SignalTask) : Prop :=
  task.pending .hangup = true ∨ task.phase = .sending .reload ∨ .reload ∈ task.channel.items

namespace SignalTask

variable {task next : SignalTask} {action : SignalAction}

theorem Coming.step (coming : task.Coming) (sound : task.Sound)
    (stepped : TaskStep task action next) : next.Coming := by
  cases stepped with
  | installed installing =>
      obtain pending | sending | waiting := coming
      · exact .inl pending
      · rw [installing] at sending
        cases sending
      · exact .inr (.inr waiting)
  | failed installing =>
      obtain pending | sending | waiting := coming
      · exact .inl pending
      · rw [installing] at sending
        cases sending
      · exact .inr (.inr waiting)
  | @took kind waiting pending =>
      cases kind with
      | hangup => exact .inr (.inl rfl)
      | _ =>
          obtain before | sending | queued := coming
          · left
            simpa [take] using before
          · rw [waiting] at sending
            cases sending
          · exact .inr (.inr queued)
  | reloading sending sent =>
      obtain ⟨-, -, -, -, items_eq, -⟩ := Channel.trySend_ok sent
      exact .inr (.inr (by simp [items_eq]))
  | stopping sending sent =>
      obtain ⟨-, -, -, -, items_eq, -⟩ := Channel.trySend_ok sent
      obtain pending | other | waiting := coming
      · exact .inl pending
      · rw [sending] at other
        cases other
      · exact .inr (.inr (by simp [finish, Channel.dropSender, items_eq, waiting]))
  | refused sending closed =>
      rw [sound.receiving] at closed
      cases closed

theorem Coming.raise {kind : SignalKind} (coming : task.Coming)
    (raised : task.raise kind = some next) : next.Coming := by
  obtain ⟨-, rfl⟩ := raise_eq_some raised
  exact coming.imp_left (update_true_of_true kind)

end SignalTask

namespace Process

variable {strip : List UInt8 → List UInt8} {reader : JsonReader}
  {parseToml : Text → Except Text WhitelistFile} {path : Text} {process next final : Process}
  {action : ProcessAction} {later : List ProcessAction}

/-- The loop is about to reload. -/
structure Reloads (process : Process) : Prop where
  polling : process.Polling
  ordered : ∃ channel, process.signals.channel.recv = some (.reload, channel)

theorem Reloads.reloaded (reloads : process.Reloads) :
    ∃ after, process.step strip reader parseToml path .pollSignals = some after ∧
      after.daemon = process.daemon.reload (Whitelist.load parseToml path process.file) := by
  obtain ⟨channel, taken⟩ := reloads.ordered
  refine ⟨process.pollSignals parseToml path, ?_, by rw [pollSignals, taken]⟩
  simp [step, act, reloads.polling.alive, reloads.polling.running, reloads.polling.arm]

theorem coming_of_step (sound : process.signals.Sound) (coming : process.signals.Coming)
    (stepped : ProcessStep strip reader parseToml path process action next) :
    (action = .pollSignals ∧ process.Reloads) ∨ next.signals.Coming := by
  cases stepped with
  | @reloaded channel running polling taken =>
      exact .inl ⟨rfl, ⟨running, polling⟩, channel, taken⟩
  | ordered running polling taken =>
      obtain ⟨items_eq, -⟩ := Channel.recv_eq_some taken
      right
      obtain pending | sending | waiting := coming
      · exact .inl pending
      · exact .inr (.inl sending)
      · rw [items_eq] at waiting
        obtain other | still := List.mem_cons.mp waiting
        · cases other
        · exact .inr (.inr still)
  | signalled moved => exact .inr (coming.step sound (SignalTask.taskStep_of_step moved))
  | raised moved => exact .inr (coming.raise moved)
  | _ => exact .inr coming

/-- In a run a hangup stays on its way until the loop reloads. -/
theorem reloads_or_coming (sound : process.signals.Sound) (coming : process.signals.Coming)
    (ran_on : run (step strip reader parseToml path) process later = some final) :
    (∃ earlier rest middle, later = earlier ++ .pollSignals :: rest ∧
        run (step strip reader parseToml path) process earlier = some middle ∧ middle.Reloads) ∨
      (final.signals.Sound ∧ final.signals.Coming) := by
  induction later generalizing process with
  | nil =>
      obtain rfl := Option.some.inj ran_on
      exact .inr ⟨sound, coming⟩
  | cons action later ih =>
      obtain ⟨next, stepped, ran_rest⟩ := run_cons_eq_some.mp ran_on
      have kind := (processStep_of_step stepped).2
      obtain ⟨rfl, reloads⟩ | still := coming_of_step sound coming kind
      · exact .inl ⟨[], later, process, rfl, rfl, reloads⟩
      · obtain ⟨earlier, rest, middle, rfl, ran_earlier, reloads⟩ | coming_last :=
          ih (sound_signals_of_step sound kind) still ran_rest
        · exact .inl ⟨action :: earlier, rest, middle, rfl,
            run_cons_eq_some.mpr ⟨next, stepped, ran_earlier⟩, reloads⟩
        · exact .inr coming_last

/-- The loop and the signal task alone bring a hangup that is on its way to a reload, if the loop is
not left. -/
theorem reaches_reload (terminal : Option Terminal) (unixSecs : Nat)
    (sound : process.signals.Sound) (coming : process.signals.Coming)
    (within : process.daemon.phase.inLoop = true) :
    ∃ reached, Reaches strip reader parseToml path terminal unixSecs process reached ∧
      (reached.daemon.phase.inLoop = false ∨ reached.Reloads) := by
  have reloads_of_items : ∀ {state : Process} {rest : List Signal}, state.Polling →
      state.signals.channel.items = .reload :: rest → state.Reloads := by
    intro state rest polling items_eq
    obtain ⟨channel, taken, -⟩ := Channel.exists_recv_of_items items_eq
    exact ⟨polling, channel, taken⟩
  obtain ⟨middle, reaches, left | ⟨polling, same⟩⟩ := reaches_polling within
  · exact ⟨middle, reaches, .inl left⟩
  · rw [← same] at sound coming
    cases items_eq : middle.signals.channel.items with
    | cons order rest =>
        cases order with
        | reload => exact ⟨middle, reaches, .inr (reloads_of_items polling items_eq)⟩
        | shutdown =>
            obtain ⟨reached, further, left⟩ := polling.obeys_order items_eq
            exact ⟨reached, reaches.trans further, .inl left⟩
    | nil =>
        cases phase_eq : middle.signals.phase with
        | installing =>
            obtain pending | sending | waiting := coming
            · exact (sound.handled (sound.pending _ pending).1 phase_eq).elim
            · rw [phase_eq] at sending
              cases sending
            · rw [items_eq] at waiting
              cases waiting
        | waiting =>
            obtain pending | sending | waiting := coming
            · obtain ⟨reached, further, polls, items⟩ :=
                polling.takes sound items_eq phase_eq pending
              exact ⟨reached, reaches.trans further, .inr (reloads_of_items polls items)⟩
            · rw [phase_eq] at sending
              cases sending
            · rw [items_eq] at waiting
              cases waiting
        | sending signal =>
            obtain ⟨passed, further, polls, items, -⟩ := polling.passes sound items_eq phase_eq
            cases signal with
            | reload => exact ⟨passed, reaches.trans further, .inr (reloads_of_items polls items)⟩
            | shutdown =>
                obtain ⟨reached, last, left⟩ := polls.obeys_order items
                exact ⟨reached, (reaches.trans further).trans last, .inl left⟩
        | ended =>
            have finished : middle.signals.channel.finished = true := by
              simp [Channel.finished, items_eq, sound.ended.mp phase_eq]
            obtain ⟨reached, further, left⟩ := polling.leaves (.inr finished)
            exact ⟨reached, reaches.trans further, .inl left⟩

/-- In every run, after a hangup that arrived while its handler was installed: in whatever way the
process goes on, the loop has reloaded what the file contained then, or it is left, or the loop and
the signal task, without the stream task and the sessions and whatever the outside answers, get to
such a reload or out of the loop. -/
theorem hangup_answered {limits : LimitsConfig} {chunking : ChunkingConfig} {whitelist : Whitelist}
    {logged : Bool} {file : Except Text Text} {actions : List ProcessAction}
    (ran : run (step strip reader parseToml path) (new limits chunking whitelist logged file)
      actions = some process)
    (raised : process.step strip reader parseToml path (.raise .hangup) = some next)
    (ran_on : run (step strip reader parseToml path) next later = some final) :
    (∃ earlier rest middle after, later = earlier ++ .pollSignals :: rest ∧
        run (step strip reader parseToml path) next earlier = some middle ∧ middle.Reloads ∧
          middle.step strip reader parseToml path .pollSignals = some after ∧
            after.daemon = middle.daemon.reload (Whitelist.load parseToml path middle.file)) ∨
      final.daemon.phase.inLoop = false ∨
        ∀ terminal unixSecs, ∃ reached,
          Leads (step strip reader parseToml path) (Attending terminal unixSecs) final reached ∧
            reached.file = final.file ∧
              (reached.daemon.phase.inLoop = false ∨ reached.Reloads) := by
  have kind := (processStep_of_step raised).2
  have sound := sound_signals_of_step (sound_signals_of_run ran) kind
  have coming : next.signals.Coming := by
    cases kind with
    | raised moved =>
        simp only [SignalTask.raise] at moved
        split at moved
        · obtain rfl := Option.some.inj moved
          exact .inl (by simp)
        · cases moved
  obtain ⟨earlier, rest, middle, split_eq, ran_earlier, reloads⟩ | ⟨sound, coming⟩ :=
    reloads_or_coming sound coming ran_on
  · obtain ⟨after, stepped, daemon_eq⟩ := reloads.reloaded
    exact .inl ⟨earlier, rest, middle, after, split_eq, ran_earlier, reloads, stepped, daemon_eq⟩
  · right
    cases within : final.daemon.phase.inLoop with
    | false => exact .inl rfl
    | true =>
        refine .inr fun terminal unixSecs => ?_
        obtain ⟨reached, reaches, outcome⟩ := reaches_reload terminal unixSecs sound coming within
        exact ⟨reached, reaches.leads, reaches.file, outcome⟩

/-- A hangup is in the signal channel, and nothing was polled since. -/
theorem hangup_answered_sample :
    ∃ process next final, run sampleStep sample [.signal (.install none)] = some process ∧
      sampleStep process (.raise .hangup) = some next ∧
        run sampleStep next [.signal (.take .hangup), .signal .send] = some final ∧
          ∀ terminal unixSecs, ∃ reached,
            Leads sampleStep (Attending terminal unixSecs) final reached ∧
              reached.file = final.file ∧
                (reached.daemon.phase.inLoop = false ∨ reached.Reloads) := by
  have installs : (run sampleStep sample [.signal (.install none)]).isSome = true := by
    decide +kernel
  have running : (run sampleStep sample ([.signal (.install none)] ++ .raise .hangup ::
      [.signal (.take .hangup), .signal .send])).map (fun process => process.daemon.phase) =
        some .running := by
    decide +kernel
  obtain ⟨process, ran⟩ := Option.isSome_iff_exists.mp installs
  obtain ⟨final, ran_all, phase_eq⟩ := Option.map_eq_some_iff.mp running
  rw [run_append, ran, Option.bind_some] at ran_all
  obtain ⟨next, raised, ran_on⟩ := run_cons_eq_some.mp ran_all
  refine ⟨process, next, final, ran, raised, ran_on, ?_⟩
  obtain ⟨earlier, rest, middle, after, split_eq, -⟩ | left | reaches :=
    hangup_answered ran raised ran_on
  · have polled : ProcessAction.pollSignals ∈ earlier ++ .pollSignals :: rest := by simp
    rw [← split_eq] at polled
    simp at polled
  · rw [phase_eq] at left
    cases left
  · exact reaches

end Process

end Loraterm
