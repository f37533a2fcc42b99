import Realm.Proofs.Net.Dealings
import Realm.Proofs.Session.Queueing
import Realm.Proofs.Session.Turnover

/-!
# A session and its connection

A session is called by the network and by the simulation, and others use its connection meanwhile.
Main statement: until it ends its two queues are those of somebody who makes only the calls for the
one or the other queue, whatever is written and even if the connection is closed; and once it has
ended it is empty, its connection is closed, and every call is refused for good.
-/

namespace Realm

structure Link where
  session : Session
  connection : Connection
  deriving DecidableEq, Repr

inductive LinkCall where
  | queueCommand (command : Command)
  | dequeueCommand
  | queueEvent (event : Event)
  | dequeueEvent
  | write (event : Event)
  | send (event : Event)
  | flush
  | terminate
  /-- Something happens to the connection alone. -/
  | other (d : Dealing)
  deriving DecidableEq, Repr

namespace LinkCall

def commandUse? : LinkCall → Option (QueueUse Command)
  | .queueCommand command => some (.offer command)
  | .dequeueCommand => some .pop
  | _ => none

def eventUse? : LinkCall → Option (QueueUse Event)
  | .queueEvent event => some (.offer event)
  | .dequeueEvent => some .pop
  | _ => none

end LinkCall

namespace Link

def call (l : Link) : LinkCall → Link
  | .queueCommand command => { l with session := (l.session.queueCommand command).2 }
  | .dequeueCommand => { l with session := l.session.dequeueCommand.2 }
  | .queueEvent event => { l with session := (l.session.queueEvent event).2 }
  | .dequeueEvent => { l with session := l.session.dequeueEvent.2 }
  | .write event => { l with connection := (Session.write l.connection event).2 }
  | .send event => { l with connection := (Session.send l.connection event).2 }
  | .flush => { l with connection := l.connection.flush.2 }
  | .terminate => ⟨l.session.terminate, l.session.hangUp l.connection⟩
  | .other d => { l with connection := l.connection.deal d }

def callAll (l : Link) (cs : List LinkCall) : Link := cs.foldl call l

def commandAnswer? (l : Link) : LinkCall → Option (QueueAnswer Command)
  | .queueCommand command => some (.offered (l.session.queueCommand command).1)
  | .dequeueCommand => some (.popped l.session.dequeueCommand.1)
  | _ => none

def eventAnswer? (l : Link) : LinkCall → Option (QueueAnswer Event)
  | .queueEvent event => some (.offered (l.session.queueEvent event).1)
  | .dequeueEvent => some (.popped l.session.dequeueEvent.1)
  | _ => none

def answers {β : Type} (answer? : Link → LinkCall → Option β) (l : Link) : List LinkCall → List β
  | [] => []
  | c :: cs => (answer? l c).toList ++ (l.call c).answers answer? cs

variable {l : Link} {c : LinkCall} {cs : List LinkCall}

theorem callAll_append (l : Link) (cs later : List LinkCall) :
    l.callAll (cs ++ later) = (l.callAll cs).callAll later := List.foldl_append

/-! ## While the session lasts -/

theorem terminated_call (h : l.session.terminated = false) (hc : c ≠ .terminate) :
    (l.call c).session.terminated = false := by
  cases c with
  | terminate => exact absurd rfl hc
  | _ => simp [call, Session.queueCommand, Session.dequeueCommand, Session.queueEvent,
      Session.dequeueEvent, h]

theorem commands_call (l : Link) (c : LinkCall) (h : l.session.terminated = false)
    (hc : c ≠ .terminate) :
    (l.call c).session.commands = l.session.commands.useAll c.commandUse?.toList := by
  cases c with
  | terminate => exact absurd rfl hc
  | _ => simp [call, Session.queueCommand, Session.dequeueCommand, Session.queueEvent,
      Session.dequeueEvent, h, LinkCall.commandUse?, Bounded.useAll, Bounded.use]

theorem events_call (l : Link) (c : LinkCall) (h : l.session.terminated = false)
    (hc : c ≠ .terminate) :
    (l.call c).session.events = l.session.events.useAll c.eventUse?.toList := by
  cases c with
  | terminate => exact absurd rfl hc
  | _ => simp [call, Session.queueCommand, Session.dequeueCommand, Session.queueEvent,
      Session.dequeueEvent, h, LinkCall.eventUse?, Bounded.useAll, Bounded.use]

theorem commandAnswer?_eq (l : Link) (c : LinkCall) (h : l.session.terminated = false) :
    l.commandAnswer? c = c.commandUse?.map l.session.commands.answer := by
  cases c <;> simp [commandAnswer?, LinkCall.commandUse?, Bounded.answer, Session.queueCommand,
    Session.dequeueCommand, h]

theorem eventAnswer?_eq (l : Link) (c : LinkCall) (h : l.session.terminated = false) :
    l.eventAnswer? c = c.eventUse?.map l.session.events.answer := by
  cases c <;> simp [eventAnswer?, LinkCall.eventUse?, Bounded.answer, Session.queueEvent,
    Session.dequeueEvent, h]

theorem queueCommand_eq (h : l.session.terminated = false) (command : Command) :
    l.session.queueCommand command = ((l.session.commands.offer command).1,
      { l.session with commands := (l.session.commands.offer command).2 }) := by
  simp [Session.queueCommand, h]

theorem call_queueCommand_of_refused {command : Command} (h : l.session.terminated = false)
    (hrefused : (l.session.queueCommand command).1 = false) :
    l.call (.queueCommand command) = l := by
  rw [queueCommand_eq h] at hrefused
  have hsame : (l.session.commands.offer command).2 = l.session.commands :=
    Bounded.offer_of_refused hrefused
  rw [call, queueCommand_eq h, hsame]

theorem queueEvent_eq (h : l.session.terminated = false) (event : Event) :
    l.session.queueEvent event = ((l.session.events.offer event).1,
      { l.session with events := (l.session.events.offer event).2 }) := by
  simp [Session.queueEvent, h]

theorem call_queueEvent_of_refused {event : Event} (h : l.session.terminated = false)
    (hrefused : (l.session.queueEvent event).1 = false) :
    l.call (.queueEvent event) = l := by
  rw [queueEvent_eq h] at hrefused
  have hsame : (l.session.events.offer event).2 = l.session.events :=
    Bounded.offer_of_refused hrefused
  rw [call, queueEvent_eq h, hsame]

theorem terminated_callAll (h : l.session.terminated = false) (hcs : .terminate ∉ cs) :
    (l.callAll cs).session.terminated = false := by
  induction cs generalizing l with
  | nil => exact h
  | cons c cs ih =>
      have hc : c ≠ .terminate := (List.ne_of_not_mem_cons hcs).symm
      have hcs := List.not_mem_of_not_mem_cons hcs
      exact ih (terminated_call h hc) hcs

/-- A queue that sees only its own calls one by one sees only its own calls in a row of them. -/
theorem queue_callAll {α : Type} {queue : Session → Bounded α}
    {use? : LinkCall → Option (QueueUse α)} {answer? : Link → LinkCall → Option (QueueAnswer α)}
    (hcall : ∀ l c, l.session.terminated = false → c ≠ .terminate →
      queue (call l c).session = (queue l.session).useAll (use? c).toList)
    (hanswer : ∀ l c, l.session.terminated = false →
      answer? l c = (use? c).map (queue l.session).answer)
    (h : l.session.terminated = false) (hcs : .terminate ∉ cs) :
    queue (l.callAll cs).session = (queue l.session).useAll (cs.filterMap use?) ∧
      l.answers answer? cs = (queue l.session).answers (cs.filterMap use?) := by
  induction cs generalizing l with
  | nil => exact ⟨rfl, rfl⟩
  | cons c cs ih =>
      have hc : c ≠ .terminate := (List.ne_of_not_mem_cons hcs).symm
      obtain ⟨hstate, hanswers⟩ := ih (terminated_call h hc) (List.not_mem_of_not_mem_cons hcs)
      have hrest : queue (l.callAll (c :: cs)).session = _ := hstate
      rw [hrest, answers, hanswers, hcall l c h hc, hanswer l c h, List.filterMap_cons]
      cases use? c <;> exact ⟨rfl, rfl⟩

/-! ## Once it has ended -/

/-- A session that has ended, with its connection: nothing is in it and nothing gets in. -/
structure Ended (l : Link) : Prop where
  spent : l.session.Spent
  closed : l.connection.closed = true
  queueCommand : ∀ command, l.session.queueCommand command = (false, l.session)
  dequeueCommand : l.session.dequeueCommand = (none, l.session)
  queueEvent : ∀ event, l.session.queueEvent event = (false, l.session)
  dequeueEvent : l.session.dequeueEvent = (none, l.session)
  write : ∀ event, Session.write l.connection event = (false, l.connection)
  send : ∀ event, Session.send l.connection event = (false, l.connection)
  flush : l.connection.flush = (false, l.connection)
  terminate : l.call .terminate = l

theorem Ended.of_spent (hspent : l.session.Spent) (hclosed : l.connection.closed = true) :
    l.Ended := by
  have hrefused : ∀ item, l.connection.offer item = (false, l.connection) :=
    fun item => if_pos hclosed
  have hwrite : ∀ event, Session.write l.connection event = (false, l.connection) :=
    fun event => hrefused _
  exact
    { spent := hspent
      closed := hclosed
      queueCommand := fun command => if_pos hspent.terminated
      dequeueCommand := if_pos hspent.terminated
      queueEvent := fun event => if_pos hspent.terminated
      dequeueEvent := if_pos hspent.terminated
      write := hwrite
      send := fun event => by rw [Session.send, hwrite]
      flush := hrefused _
      terminate := by
        have hsession : l.session.terminate = l.session := if_pos hspent.terminated
        have hconnection : l.session.hangUp l.connection = l.connection :=
          if_pos hspent.terminated
        rw [call, hsession, hconnection] }

/-- A call after the end changes nothing, and what happens to the connection leaves it closed. -/
theorem Ended.call_eq (h : l.Ended) (c : LinkCall) :
    (∃ d, c = .other d) ∨ l.call c = l := by
  cases c with
  | other d => exact .inl ⟨d, rfl⟩
  | queueCommand command => exact .inr (by rw [call, h.queueCommand])
  | dequeueCommand => exact .inr (by rw [call, h.dequeueCommand])
  | queueEvent event => exact .inr (by rw [call, h.queueEvent])
  | dequeueEvent => exact .inr (by rw [call, h.dequeueEvent])
  | write event => exact .inr (by rw [call, h.write])
  | send event => exact .inr (by rw [call, h.send])
  | flush => exact .inr (by rw [call, h.flush])
  | terminate => exact .inr h.terminate

theorem Ended.call (h : l.Ended) (c : LinkCall) :
    (l.call c).Ended ∧ (l.call c).session = l.session := by
  obtain ⟨d, rfl⟩ | hsame := h.call_eq c
  · refine ⟨.of_spent h.spent ?_, rfl⟩
    have hclosed : (l.connection.deal d).closed = _ := l.connection.closed_deal d
    rw [Link.call, hclosed, h.closed, Bool.true_or]
  · rw [hsame]
    exact ⟨h, rfl⟩

theorem Ended.callAll (h : l.Ended) (cs : List LinkCall) :
    (l.callAll cs).Ended ∧ (l.callAll cs).session = l.session := by
  induction cs generalizing l with
  | nil => exact ⟨h, rfl⟩
  | cons c cs ih =>
      obtain ⟨hcall, hsession⟩ := h.call c
      obtain ⟨hended, hrest⟩ := ih hcall
      exact ⟨hended, hrest.trans hsession⟩

theorem ended_terminate (h : l.session.terminated = false) : (l.call .terminate).Ended := by
  refine .of_spent (Session.spent_terminate fun ht => absurd (h.symm.trans ht) nofun) ?_
  have hclosed : (l.connection.deal (.use .close)).closed = _ := l.connection.closed_deal _
  have hhung : (l.call .terminate).connection = l.connection.close := if_neg (by simp [h])
  rw [hhung]
  exact hclosed.trans (by simp)

theorem ended_callAll (h : l.session.terminated = false) (hcs : .terminate ∈ cs) :
    (l.callAll cs).Ended := by
  induction cs generalizing l with
  | nil => exact absurd hcs nofun
  | cons c cs ih =>
      by_cases hc : c = .terminate
      · subst hc
        exact ((ended_terminate h).callAll cs).1
      · exact ih (terminated_call h hc) ((List.mem_cons.mp hcs).resolve_left (Ne.symm hc))

/-! ## The whole life -/

/-- How a session stands that has not ended, after these calls since it was new. -/
structure Lasting (limits : SessionLimits) (start : Link) (cs : List LinkCall) : Prop where
  /-- The commands are a queue of their own, which knows the calls for the commands only. -/
  commands : Bounded.DropsNewest limits.commands (cs.filterMap LinkCall.commandUse?)
    (start.answers commandAnswer? cs) (start.callAll cs).session.commands
  /-- The events are a queue of their own, which knows the calls for the events only. -/
  events : Bounded.DropsNewest limits.events (cs.filterMap LinkCall.eventUse?)
    (start.answers eventAnswer? cs) (start.callAll cs).session.events
  queueCommand_iff : ∀ command,
    ((start.callAll cs).session.queueCommand command).1 = true ↔
      (start.callAll cs).session.commands.items.length < max 1 limits.commands
  queueCommand_refused : ∀ command,
    ((start.callAll cs).session.queueCommand command).1 = false →
      start.callAll (cs ++ [.queueCommand command]) = start.callAll cs
  queueEvent_iff : ∀ event,
    ((start.callAll cs).session.queueEvent event).1 = true ↔
      (start.callAll cs).session.events.items.length < max 1 limits.events
  queueEvent_refused : ∀ event,
    ((start.callAll cs).session.queueEvent event).1 = false →
      start.callAll (cs ++ [.queueEvent event]) = start.callAll cs

theorem Lasting.fresh (connection : ConnectionId) (account : AccountId) (entity : Handle)
    (limits : SessionLimits) (k : Connection) (hcs : .terminate ∉ cs) :
    Lasting limits ⟨.fresh connection account entity limits, k⟩ cs := by
  set start : Link := ⟨.fresh connection account entity limits, k⟩
  have hfresh : start.session.terminated = false := rfl
  have hlives := terminated_callAll hfresh hcs
  obtain ⟨hcommands, hsaid⟩ := queue_callAll commands_call commandAnswer?_eq hfresh hcs
  obtain ⟨hevents, htold⟩ := queue_callAll events_call eventAnswer?_eq hfresh hcs
  have hcommands : Bounded.DropsNewest limits.commands (cs.filterMap LinkCall.commandUse?)
      (start.answers commandAnswer? cs) (start.callAll cs).session.commands := by
    rw [hcommands, hsaid]
    exact Bounded.dropsNewest_useAll _ _
  have hevents : Bounded.DropsNewest limits.events (cs.filterMap LinkCall.eventUse?)
      (start.answers eventAnswer? cs) (start.callAll cs).session.events := by
    rw [hevents, htold]
    exact Bounded.dropsNewest_useAll _ _
  exact
    { commands := hcommands
      events := hevents
      queueCommand_iff := fun command => by
        rw [queueCommand_eq hlives]
        exact hcommands.offer_iff command
      queueCommand_refused := fun command hrefused => by
        rw [callAll_append]
        exact call_queueCommand_of_refused hlives hrefused
      queueEvent_iff := fun event => by
        rw [queueEvent_eq hlives]
        exact hevents.offer_iff event
      queueEvent_refused := fun event hrefused => by
        rw [callAll_append]
        exact call_queueEvent_of_refused hlives hrefused }

/-- How a new session stands after these calls: it has two queues until it ends, and nothing
afterwards. -/
structure Keeps (limits : SessionLimits) (start : Link) (cs : List LinkCall) : Prop where
  terminated_iff : (start.callAll cs).session.terminated = true ↔ .terminate ∈ cs
  lasting : .terminate ∉ cs → Lasting limits start cs
  ended : .terminate ∈ cs → (start.callAll cs).Ended
  ended_eq : .terminate ∈ cs → ∀ later,
    (start.callAll (cs ++ later)).session = (start.callAll cs).session
  ended_call : .terminate ∈ cs → ∀ c, (∀ d, c ≠ .other d) →
    start.callAll (cs ++ [c]) = start.callAll cs

/-- Whatever is called on a new session and whatever happens to its connection, the session is two
queues apart, which refuse the newest, until it ends; then it is empty and closed and refuses
everything for good. -/
theorem fresh_keeps (connection : ConnectionId) (account : AccountId) (entity : Handle)
    (limits : SessionLimits) (k : Connection) (cs : List LinkCall) :
    Keeps limits ⟨.fresh connection account entity limits, k⟩ cs := by
  have hfresh : (Link.mk (.fresh connection account entity limits) k).session.terminated = false :=
    rfl
  by_cases hcs : .terminate ∈ cs
  · have hended := ended_callAll hfresh hcs
    exact
      { terminated_iff := iff_of_true hended.spent.terminated hcs
        lasting := fun hlasts => absurd hcs hlasts
        ended := fun _ => hended
        ended_eq := fun _ later => by
          rw [callAll_append]
          exact (hended.callAll later).2
        ended_call := fun _ c hc => by
          rw [callAll_append]
          exact (hended.call_eq c).resolve_left fun ⟨d, hd⟩ => hc d hd }
  · have hlives := terminated_callAll hfresh hcs
    exact
      { terminated_iff := iff_of_false (by simp [hlives]) hcs
        lasting := fun _ => .fresh connection account entity limits k hcs
        ended := fun h => absurd h hcs
        ended_eq := fun h => absurd h hcs
        ended_call := fun h => absurd h hcs }

end Link

end Realm
