import Realm.Proofs.Session.Lookup

/-!
# The events of a session

An event that is queued stands behind all others, if the session takes it. What is queued on every
session may be queued on one after the other, in whatever order they are listed.
-/

namespace Realm

namespace Session

variable (x : Session)

def hasRoom : Bool := !x.terminated && !x.events.isFull

theorem items_queueEvent (e : Event) : (x.queueEvent e).2.events.items =
    x.events.items ++ if x.hasRoom then [e] else [] := by
  unfold queueEvent hasRoom Bounded.offer
  cases x.terminated <;> cases x.events.isFull <;> simp

theorem events_dequeueCommand : x.dequeueCommand.2.events = x.events := by
  unfold dequeueCommand
  split <;> rfl

theorem hasRoom_dequeueCommand : x.dequeueCommand.2.hasRoom = x.hasRoom := by
  unfold dequeueCommand
  split <;> rfl

theorem events_queueCommand (command : Command) : (x.queueCommand command).2.events = x.events := by
  unfold queueCommand
  split <;> rfl

/-- A session that ends loses all its events; one that has ended loses none. -/
theorem items_terminate : x.terminate.events.items = x.events.items ∨
    x.terminate.events.items = [] := by
  unfold terminate
  split
  · exact .inl rfl
  · exact .inr rfl

end Session

namespace Lobby

/-- Queues an event on the sessions of some connections, one after the other. -/
def tell (order : List ConnectionId) (e : Event) (l : Lobby) : Lobby :=
  order.foldl (fun l c => (l.queueEvent c e).2) l

/-- Taking a command leaves the events of a session and the room for more alone. -/
theorem exists_session_takeCommand {l : Lobby} {c : ConnectionId} {x : Session}
    (client : ConnectionId) (hx : l.session? c = some x) :
    ∃ x', (l.takeCommand client).2.session? c = some x' ∧ x'.events = x.events ∧
      x'.hasRoom = x.hasRoom := by
  have htaken := l.session?_takeCommand client c
  by_cases hc : c = client
  · subst hc
    rw [if_pos rfl, hx] at htaken
    exact ⟨_, htaken, x.events_dequeueCommand, x.hasRoom_dequeueCommand⟩
  · rw [if_neg hc, hx] at htaken
    exact ⟨x, htaken, rfl, rfl⟩

theorem items_broadcast {l : Lobby} {c : ConnectionId} {x y : Session} {e : Event}
    (hx : l.session? c = some x) (hy : (l.broadcast e).session? c = some y) :
    y.events.items = x.events.items ++ if x.hasRoom then [e] else [] := by
  rw [l.session?_broadcast, hx] at hy
  obtain rfl := Option.some.inj hy
  exact x.items_queueEvent e

/-- Each of the sessions that are told has the event queued once. -/
theorem tell_eq {order : List ConnectionId} (horder : order.Nodup) (e : Event) (l : Lobby) :
    l.tell order e = { l with sessions := ⟨l.sessions.sessions.map fun x =>
      if x.connection ∈ order then (x.queueEvent e).2 else x⟩ } := by
  induction order generalizing l with
  | nil => simp [tell]
  | cons c rest ih =>
      obtain ⟨hfresh, hrest⟩ := List.nodup_cons.mp horder
      have hnext : l.tell (c :: rest) e = (l.queueEvent c e).2.tell rest e := rfl
      rw [hnext, ih hrest, queueEvent, modifySession, Sessions.modify, List.map_map]
      congr 2
      refine List.map_congr_left fun x _ => ?_
      have hconnection : (x.queueEvent e).2.connection = x.connection :=
        congrArg Bond.connection (x.bond_queueEvent e)
      show (if (if x.connection = c then (x.queueEvent e).2 else x).connection ∈ rest then _ else _) =
        _
      by_cases hx : x.connection = c
      · rw [if_pos hx, hconnection, hx, if_neg hfresh, if_pos List.mem_cons_self]
      · simp only [List.mem_cons, hx, false_or, if_false]

/-- However the sessions are listed, telling all of them is a broadcast. -/
theorem tell_eq_broadcast {l : Lobby} (hn : (l.roll.map (·.connection)).Nodup)
    {order : List ConnectionId} (horder : order.Perm (l.roll.map (·.connection))) (e : Event) :
    l.tell order e = l.broadcast e := by
  rw [tell_eq (horder.nodup_iff.mpr hn), broadcast, Sessions.modifyAll]
  congr 2
  refine List.map_congr_left fun x hx => if_pos (horder.mem_iff.mpr ?_)
  exact List.mem_map.mpr ⟨x.bond, List.mem_map_of_mem hx, rfl⟩

end Lobby

end Realm
