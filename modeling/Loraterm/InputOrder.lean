import Loraterm.SessionProgress

/-!
# From the input channel to the PTY

A text the input channel accepted is taken, encoded and sent to the PTY input in its turn.  It is
lost only when the actor leaves its loop with texts waiting, when one is accepted after that, or
when the PTY input is closed while a payload is in hand.
-/

namespace Loraterm

open Utf8Text Mpsc Execution

theorem Pty.accepted_of_step {pty next : Pty} {action : PtyAction}
    (stepped : pty.step action = some next) : next.input.accepted = pty.input.accepted := by
  have outward : action.ofWriter = false → next.input.accepted = pty.input.accepted := by
    intro other
    rw [(inward_of_step stepped other).1]
  cases action with
  | writerReceive =>
      obtain ⟨-, ⟨payload, input, received, rfl⟩ | ⟨-, -, rfl⟩⟩ := writerReceive_cases stepped
      · exact Channel.accepted_recv received
      · exact Channel.accepted_dropReceiver _
  | writerWrite count =>
      obtain ⟨rest, kernelIn, -, -, rfl⟩ := writerWrite_cases stepped
      rfl
  | writerFails =>
      obtain rfl := writerFails_cases stepped
      exact Channel.accepted_dropReceiver _
  | _ => exact outward rfl

namespace Session

/-- Every accepted text was encoded and sent to the PTY input once, in order, but for the one in
hand and, as long as the loop runs, those waiting. -/
structure Delivers (session : Session) : Prop where
  order : session.input.accepted.map encodePtyInput =
    session.pty.input.accepted ++ session.phase.inHand ++ session.input.items.map encodePtyInput
  left : session.phase.inLoop = false → session.input.items = []

variable (strip : List UInt8 → List UInt8)

/-- The actor is about to panic. -/
def Panics (session : Session) (wake : Wake) : Prop :=
  match session.phase with
  | .starting => session.limits.outboundChannelDepth = 0
  | .selecting => session.chunker.nextDeadline = none
  | .listening =>
      wake.tick = false ∧ session.silenceReady wake = true ∧
        session.chunker.maybeFlush strip wake.instant = none
  | _ => False

/-- The idle arm is about to end the loop. -/
def IdlesOut (session : Session) (wake : Wake) : Prop :=
  session.phase = .listening ∧ wake.tick = true ∧
    asI64 (asSecs session.idleTimeout) < asI64 wake.unixSecs - session.lastActivity

/-- The loop is not about to end with texts waiting, a payload in hand finds the PTY input open,
and no text is accepted between the end of the loop and the end of the task. -/
def Careful (session : Session) : SessionAction → Prop
  | .deliver _ _ => session.phase.leaving = true → session.input.Full
  | .actor wake =>
      (session.Panics strip wake ∨ session.IdlesOut wake → session.input.items = []) ∧
        ∀ payload, session.phase = .forwarding payload → session.pty.input.receiving = true
  | _ => True

variable {strip : List UInt8 → List UInt8}

theorem inLoop_of_panics {session : Session} {wake : Wake} (panics : session.Panics strip wake) :
    session.phase.inLoop = true := by
  simp only [Panics] at panics
  split at panics
  · rename_i starting
    rw [starting]
    rfl
  · rename_i selecting
    rw [selecting]
    rfl
  · rename_i listening
    rw [listening]
    rfl
  · exact panics.elim

theorem left_of_panics {session next : Session} {wake : Wake}
    (stepped : session.actor strip wake = some next) (panics : session.Panics strip wake) :
    next.phase.inLoop = false := by
  simp only [Panics] at panics
  split at panics
  · rename_i starting
    simp only [actor, starting, start, panics, if_true] at stepped
    obtain rfl := Option.some.inj stepped
    rfl
  · rename_i selecting
    simp only [actor, selecting, pollShutdown, panics] at stepped
    obtain rfl := Option.some.inj stepped
    rfl
  · rename_i listening
    obtain ⟨no_tick, silence, overflow⟩ := panics
    simp only [actor, listening, pollArms, no_tick, silence, overflow, Bool.false_eq_true, if_false,
      if_true] at stepped
    obtain rfl := Option.some.inj stepped
    rfl
  · exact panics.elim

theorem left_of_idlesOut {session next : Session} {wake : Wake}
    (stepped : session.actor strip wake = some next) (idles : session.IdlesOut wake) :
    next.phase.inLoop = false := by
  obtain ⟨listening, tick, exceeded⟩ := idles
  simp only [actor, listening, pollArms, tick, exceeded, if_true] at stepped
  obtain rfl := Option.some.inj stepped
  exact leaveLoop_inLoop _ _ _

theorem left_of_closed {session next : Session} {wake : Wake} {payload : List UInt8}
    (stepped : session.actor strip wake = some next) (forwarding : session.phase = .forwarding payload)
    (closed : session.pty.input.receiving = false) : next.phase.inLoop = false := by
  simp only [actor, forwarding, forward, Channel.trySend_of_closed payload closed] at stepped
  obtain rfl := Option.some.inj stepped
  exact leaveLoop_inLoop _ _ _

/-- A careful actor leaves its loop for a reason of its own only when nothing waits. -/
theorem emptied_of_left {session next : Session} {wake : Wake}
    (stepped : session.actor strip wake = some next) (within : session.phase.inLoop = true)
    (waiting : session.shutdown = .waiting) (careful : session.Careful strip (.actor wake))
    (left : next.phase.inLoop = false) :
    session.input.items = [] ∧ session.phase.inHand = [] := by
  obtain ⟨no_loss, opened⟩ := careful
  cases here : session.phase with
  | starting =>
      refine ⟨no_loss (.inl ?_), rfl⟩
      simp only [Panics, here]
      by_contra depth
      simp only [actor, here, start, if_neg depth] at stepped
      obtain rfl := Option.some.inj stepped
      cases left
  | selecting =>
      refine ⟨no_loss (.inl ?_), rfl⟩
      simp only [Panics, here]
      simp only [actor, here, pollShutdown, waiting] at stepped
      split at stepped
      · assumption
      · obtain rfl := Option.some.inj stepped
        cases left
  | listening =>
      refine ⟨?_, rfl⟩
      simp only [actor, here] at stepped
      have polled := polled_pollArms strip session wake
      rw [Option.some.inj stepped] at polled
      cases polled with
      | idledOut tick exceeded => exact no_loss (.inr ⟨here, tick, exceeded⟩)
      | overflowed no_tick silence panic =>
          apply no_loss
          left
          simp only [Panics, here]
          exact ⟨no_tick, silence, panic⟩
      | ended empty => exact Channel.recv_eq_none_iff.mp empty
      | outputOverflowed empty => exact Channel.recv_eq_none_iff.mp empty
      | parked => cases left
      | flushed => cases left
      | took => cases left
      | pushed => cases left
  | enqueuing chunks =>
      exfalso
      simp only [actor, here, enqueueNext] at stepped
      split at stepped
      · obtain ⟨outbound, -, rfl⟩ := Option.map_eq_some_iff.mp stepped
        cases left
      · split at stepped
        · obtain rfl := Option.some.inj stepped
          cases left
        · obtain ⟨outbound, -, rfl⟩ := Option.map_eq_some_iff.mp stepped
          cases left
  | forwarding payload =>
      exfalso
      simp only [actor, here, forward] at stepped
      split at stepped
      · obtain rfl := Option.some.inj stepped
        cases left
      · cases stepped
      · rename_i refused
        rw [Channel.trySend_closed refused] at opened
        exact absurd (opened payload here) (by simp)
  | _ =>
      rw [here] at within
      cases within

/-! ## What a careful step keeps -/

theorem Delivers.actorStep {session next : Session} (delivers : session.Delivers)
    (stepped : ActorStep strip session next)
    (emptied : session.phase.inLoop = true → next.phase.inLoop = false →
      session.input.items = [] ∧ session.phase.inHand = []) : next.Delivers := by
  have order := delivers.order
  cases stepped with
  | @moved phase within empty_handed settled target =>
      have after : phase.inLoop = true ∧ phase.inHand = [] := by
        obtain rfl | rfl := target <;> exact ⟨rfl, rfl⟩
      refine ⟨?_, by simp [after.1]⟩
      rw [empty_handed] at order
      simpa [after.2] using order
  | crashed within settled =>
      obtain ⟨empty, empty_handed⟩ := emptied within rfl
      refine ⟨?_, fun _ => rfl⟩
      rw [empty, empty_handed] at order
      simpa [crash, ActorPhase.inHand] using order
  | left within settled rest =>
      obtain ⟨empty, empty_handed⟩ := emptied within rfl
      refine ⟨?_, fun _ => empty⟩
      rw [empty_handed] at order
      simpa [ActorPhase.inHand] using order
  | took listening received =>
      obtain ⟨items_eq, -⟩ := Channel.recv_eq_some received
      refine ⟨?_, by simp [ActorPhase.inLoop]⟩
      rw [listening, items_eq] at order
      simpa [Channel.accepted_recv received, ActorPhase.inHand] using order
  | chunked listening =>
      refine ⟨?_, by simp [ActorPhase.inLoop]⟩
      rw [listening] at order
      exact order
  | retried enqueuing retry => exact ⟨order, delivers.left⟩
  | offered enqueuing offer =>
      refine ⟨?_, by simp [ActorPhase.inLoop]⟩
      rw [enqueuing] at order
      exact order
  | forwarded forwarding sent =>
      refine ⟨?_, by simp [ActorPhase.inLoop]⟩
      rw [forwarding] at order
      simpa [Channel.accepted_trySend sent, ActorPhase.inHand] using order
  | flushed flushing send =>
      refine ⟨?_, fun _ => delivers.left (by rw [flushing]; rfl)⟩
      rw [flushing] at order
      exact order
  | closed flushing =>
      refine ⟨?_, fun _ => delivers.left (by rw [flushing]; rfl)⟩
      rw [flushing] at order
      exact order
  | joined joining done =>
      refine ⟨?_, fun _ => delivers.left (by rw [joining]; rfl)⟩
      rw [joining] at order
      exact order
  | reaped reaping =>
      have empty := delivers.left (by rw [reaping]; rfl)
      refine ⟨?_, fun _ => rfl⟩
      rw [reaping, empty] at order
      simpa [reap, ActorPhase.inHand] using order

/-- A text is accepted in the loop only, or finds the task ended. -/
theorem Delivers.delivered {session : Session} {line : Text} {unixSecs : Nat} {input : Channel Text}
    (delivers : session.Delivers) (sound : session.Sound)
    (careful : session.Careful strip (.deliver line unixSecs))
    (sent : session.input.trySend line = .ok input) :
    Delivers { session with input, lastActivity := asI64 unixSecs } := by
  obtain ⟨receiving, room, -, -, items_eq, -⟩ := Channel.trySend_ok sent
  refine ⟨?_, fun left => ?_⟩
  · rw [Channel.accepted_trySend sent, items_eq]
    simp [delivers.order]
  · have not_over : session.phase.isOver = false := by simpa [sound.live] using receiving
    have full : session.input.items.length = session.input.capacity :=
      careful (ActorPhase.leaving_iff.mpr ⟨left, not_over⟩)
    omega

/-- Careful steps of a session that is not told to shut down deliver. -/
theorem Delivers.step {session next : Session} {action : SessionAction}
    (delivers : session.Delivers) (sound : session.Sound)
    (waiting : session.phase.inLoop = true → session.shutdown = .waiting)
    (careful : session.Careful strip action) (stepped : session.step strip action = some next) :
    next.Delivers := by
  cases sessionStep_of_step stepped with
  | delivered sent => exact delivers.delivered sound careful sent
  | acted acted =>
      exact delivers.actorStep (actorStep_of_actor acted)
        fun within left => emptied_of_left acted within (waiting within) careful left
  | bridged pty_stepped =>
      refine ⟨?_, delivers.left⟩
      rw [Pty.accepted_of_step pty_stepped]
      exact delivers.order
  | _ => exact ⟨delivers.order, delivers.left⟩

/-! ## What a careless step loses -/

theorem emptied_of_delivers {session next : Session} (delivers : session.Delivers)
    (still : next.Delivers) (stepped : ActorStep strip session next)
    (within : session.phase.inLoop = true) (left : next.phase.inLoop = false) :
    session.input.items = [] ∧ session.phase.inHand = [] := by
  have before := delivers.order
  have after := still.order
  have nothing_left : session.phase.inHand ++ session.input.items.map encodePtyInput = [] := by
    rw [still.left left, stepped.accepted, before, List.append_assoc] at after
    cases stepped with
    | moved _ _ _ target => obtain rfl | rfl := target <;> cases left
    | crashed => simpa [crash, ActorPhase.inHand] using after
    | left => simpa [ActorPhase.inHand] using after
    | took => cases left
    | chunked => cases left
    | retried enqueuing => simp [enqueuing, ActorPhase.inLoop] at left
    | offered => cases left
    | forwarded => cases left
    | flushed flushing => simp [flushing, ActorPhase.inLoop] at within
    | closed flushing => simp [flushing, ActorPhase.inLoop] at within
    | joined joining => simp [joining, ActorPhase.inLoop] at within
    | reaped reaping => simp [reaping, ActorPhase.inLoop] at within
  obtain ⟨empty_handed, empty⟩ := List.append_eq_nil_iff.mp nothing_left
  exact ⟨List.map_eq_nil_iff.mp empty, empty_handed⟩

theorem careful_of_delivers {session next : Session} {action : SessionAction}
    (delivers : session.Delivers) (sound : session.Sound) (still : next.Delivers)
    (stepped : session.step strip action = some next) : session.Careful strip action := by
  cases action with
  | deliver line unixSecs =>
      intro leaving
      by_contra room
      obtain ⟨left, not_over⟩ := ActorPhase.leaving_iff.mp leaving
      have receiving : session.input.receiving = true := by
        rw [sound.live, not_over]
        rfl
      obtain ⟨input, sent⟩ := (Channel.trySend_isOk_iff line).mpr ⟨receiving, room⟩
      obtain ⟨-, -, -, -, items_eq, -⟩ := Channel.trySend_ok sent
      obtain rfl := Option.some.inj stepped
      simp only [Session.deliver, sent] at still
      have empty := still.left left
      simp [items_eq] at empty
  | actor wake =>
      have kind := actorStep_of_actor stepped
      refine ⟨fun ends => ?_, fun payload forwarding => ?_⟩
      · have within : session.phase.inLoop = true := by
          obtain panics | ⟨listening, -⟩ := ends
          · exact inLoop_of_panics panics
          · rw [listening]
            rfl
        have left : next.phase.inLoop = false := by
          obtain panics | idles := ends
          · exact left_of_panics stepped panics
          · exact left_of_idlesOut stepped idles
        exact (emptied_of_delivers delivers still kind within left).1
      · by_contra closed
        have within : session.phase.inLoop = true := by rw [forwarding]; rfl
        have left := left_of_closed stepped forwarding (by simpa using closed)
        have empty_handed := (emptied_of_delivers delivers still kind within left).2
        rw [forwarding] at empty_handed
        cases empty_handed
  | _ => trivial

/-! ## What waits can be sent -/

/-- The session can go on: it is in its loop and not told to stop, its deadline can be computed,
and its PTY input is open towards a child that reads. -/
structure Healthy (session : Session) : Prop where
  within : session.phase.inLoop = true
  waiting : session.shutdown = .waiting
  depth : session.limits.outboundChannelDepth ≠ 0
  deadline : session.chunker.nextDeadline ≠ none
  opened : session.pty.input.receiving = true
  alive : session.pty.childAlive = true
  sized : 0 < session.pty.kernelIn.size

/-- The session's own steps lead to the top of the loop, with some payloads sent and some texts
still waiting. -/
structure Sends (strip : List UInt8 → List UInt8) (session final : Session)
    (sent : List (List UInt8)) (waiting : List Text) : Prop where
  leads : Leads (step strip) (fun action => action.own = true) session final
  healthy : final.Healthy
  sound : final.Sound
  selecting : final.phase = .selecting
  payloads : final.pty.input.accepted = session.pty.input.accepted ++ sent
  items : final.input.items = waiting

theorem Sends.trans {session middle final : Session} {first second : List (List UInt8)}
    {between waiting : List Text} (earlier : Sends strip session middle first between)
    (later : Sends strip middle final second waiting) :
    Sends strip session final (first ++ second) waiting where
  leads := earlier.leads.trans later.leads
  healthy := later.healthy
  sound := later.sound
  selecting := later.selecting
  payloads := by rw [later.payloads, earlier.payloads, List.append_assoc]
  items := later.items

theorem Sound.leads {session final : Session} {allowed : SessionAction → Prop}
    (sound : session.Sound) (leads : Leads (Session.step strip) allowed session final) : final.Sound :=
  leads.invariant (fun _ _ _ sound _ stepped => Sound.step sound stepped) sound

variable (strip) in
theorem sends_forwarding {session : Session} {payload : List UInt8} (healthy : session.Healthy)
    (sound : session.Sound) (forwarding : session.phase = .forwarding payload) :
    ∃ final, Sends strip session final [payload] session.input.items := by
  obtain ⟨pty, pty_leads, relieved⟩ :=
    Pty.relieved_of_reading sound.pty healthy.opened healthy.alive healthy.sized
  have session_leads : Leads (step strip) (fun action => action.own = true) session
      { session with pty } := leads_of_pty pty_leads fun _ _ => rfl
  obtain ⟨input, sent, leads⟩ := forwarding_ends (.plain 0 0) session_leads rfl forwarding
    relieved.receiving relieved.room
  obtain ⟨-, -, -, -, -, -, -, receiving⟩ := Channel.trySend_ok sent
  refine ⟨_, leads, ?_, sound.leads leads, rfl, ?_, rfl⟩
  · exact ⟨rfl, healthy.waiting, healthy.depth, healthy.deadline,
      receiving.trans relieved.receiving, relieved.alive.trans healthy.alive,
      relieved.size ▸ healthy.sized⟩
  · rw [Channel.accepted_trySend sent, relieved.accepted]

theorem sends_listening {session : Session} {line : Text} {rest : List Text}
    (healthy : session.Healthy) (sound : session.Sound) (listening : session.phase = .listening)
    (items_eq : session.input.items = line :: rest) :
    ∃ final, Sends strip session final [encodePtyInput line] rest := by
  obtain ⟨taken, input, received⟩ := Channel.exists_recv (items_eq ▸ List.cons_ne_nil line rest)
  obtain ⟨taken_eq, -⟩ := Channel.recv_eq_some received
  obtain ⟨rfl, rfl⟩ := List.cons.inj (items_eq.symm.trans taken_eq)
  let next : Session :=
    { session with
      input
      lastActivity := asI64 0
      phase := .forwarding (encodePtyInput line) }
  have stepped : session.step strip (.actor (.plain 0 0)) = some next := by
    simp [step, actor, listening, pollArms, Wake.plain, silenceReady, received, next]
  have healthy_next : next.Healthy :=
    ⟨rfl, healthy.waiting, healthy.depth, healthy.deadline, healthy.opened, healthy.alive,
      healthy.sized⟩
  obtain ⟨final, sends⟩ := sends_forwarding strip healthy_next (sound.step stepped) rfl
  exact ⟨final, .head rfl stepped sends.leads, sends.healthy, sends.sound, sends.selecting,
    sends.payloads, sends.items⟩

/-- The waiting texts go out one after the other. -/
theorem sends_selecting {session : Session} (healthy : session.Healthy) (sound : session.Sound)
    (selecting : session.phase = .selecting) :
    ∃ final, Sends strip session final (session.input.items.map encodePtyInput) [] := by
  obtain ⟨items, items_eq⟩ : ∃ items, session.input.items = items := ⟨_, rfl⟩
  induction items generalizing session with
  | nil =>
      refine ⟨session, .refl session, healthy, sound, selecting, ?_, items_eq⟩
      simp [items_eq]
  | cons line rest ih =>
      have stepped : session.step strip (.actor (.plain 0 0)) =
          some { session with phase := .listening } := by
        obtain ⟨deadline, computed⟩ := Option.ne_none_iff_exists'.mp healthy.deadline
        simp [step, actor, selecting, pollShutdown, computed, healthy.waiting]
      have healthy_next : ({ session with phase := .listening } : Session).Healthy :=
        ⟨rfl, healthy.waiting, healthy.depth, healthy.deadline, healthy.opened, healthy.alive,
          healthy.sized⟩
      obtain ⟨middle, sends⟩ := sends_listening healthy_next (sound.step stepped) rfl items_eq
      obtain ⟨final, sends_rest⟩ := ih sends.healthy sends.sound sends.selecting sends.items
      rw [sends.items] at sends_rest
      have all := sends.trans sends_rest
      rw [items_eq]
      exact ⟨final, .head rfl stepped all.leads, all.healthy, all.sound, all.selecting,
        all.payloads, all.items⟩

variable (strip) in
theorem sends_in_loop {session : Session} (healthy : session.Healthy) (sound : session.Sound) :
    (session.phase = .listening ∧ session.input.items = []) ∨
      ∃ final, Sends strip session final
        (session.phase.inHand ++ session.input.items.map encodePtyInput) [] := by
  have top : ∀ {middle : Session} {sent : List (List UInt8)},
      Sends strip session middle sent session.input.items →
        ∃ final, Sends strip session final (sent ++ session.input.items.map encodePtyInput) [] := by
    intro middle sent sends
    obtain ⟨final, sends_rest⟩ := sends_selecting sends.healthy sends.sound sends.selecting
    rw [sends.items] at sends_rest
    exact ⟨final, sends.trans sends_rest⟩
  cases here : session.phase with
  | starting =>
      right
      have stepped : session.step strip (.actor (.plain 0 0)) =
          some { session with phase := .selecting } := by
        simp [step, actor, here, start, healthy.depth]
      refine top ⟨.single rfl stepped, ?_, sound.step stepped, rfl, (List.append_nil _).symm, rfl⟩
      exact ⟨rfl, healthy.waiting, healthy.depth, healthy.deadline, healthy.opened, healthy.alive,
        healthy.sized⟩
  | selecting =>
      right
      exact top ⟨.refl session, healthy, sound, here, (List.append_nil _).symm, rfl⟩
  | listening =>
      cases items_eq : session.input.items with
      | nil => exact .inl ⟨rfl, rfl⟩
      | cons line rest =>
          right
          obtain ⟨middle, sends⟩ := sends_listening healthy sound here items_eq
          obtain ⟨final, sends_rest⟩ := sends_selecting sends.healthy sends.sound sends.selecting
          rw [sends.items] at sends_rest
          exact ⟨final, sends.trans sends_rest⟩
  | enqueuing chunks =>
      right
      obtain ⟨outbound, leads⟩ : ∃ outbound, Leads (step strip) (fun action => action.own = true)
          session { session with outbound, phase := .selecting } :=
        enqueuing_ends (.plain 0 0) rfl here
      refine top ⟨leads, ?_, sound.leads leads, rfl, (List.append_nil _).symm, rfl⟩
      exact ⟨rfl, healthy.waiting, healthy.depth, healthy.deadline, healthy.opened, healthy.alive,
        healthy.sized⟩
  | forwarding payload =>
      right
      obtain ⟨middle, sends⟩ := sends_forwarding strip healthy sound here
      exact top sends
  | _ =>
      have within := healthy.within
      rw [here] at within
      cases within

/-- A healthy session can send every text it accepted. -/
theorem accepted_sent_of_healthy {session : Session} (delivers : session.Delivers)
    (healthy : session.Healthy) (sound : session.Sound) :
    ∃ final, Leads (step strip) (fun action => action.own = true) session final ∧
      final.pty.input.accepted = session.input.accepted.map encodePtyInput := by
  obtain ⟨listening, empty⟩ | ⟨final, sends⟩ := sends_in_loop strip healthy sound
  · refine ⟨session, .refl session, ?_⟩
    rw [delivers.order, listening, empty]
    simp [ActorPhase.inHand]
  · refine ⟨final, sends.leads, ?_⟩
    rw [sends.payloads, delivers.order, List.append_assoc]

end Session

end Loraterm
