import Realm.Proofs.Net.Table
import Realm.Proofs.Session.Events

/-!
# How a connection is attended to

What the systems do for a player depends on the commands that wait in the session, on whether the
session has ended and on whether the connection is closed. Nothing that is queued for clients matters
to this, and nothing that is done about another connection.
-/

namespace Realm

/-- The commands that wait in the session of a connection, whether it has ended, and whether the
connection is closed. -/
def Lobby.attendance (l : Lobby) (c : ConnectionId) : Option (Bounded Command × Bool × Bool) :=
  (l.session? c).map fun x => (x.commands, x.terminated, l.connections.isClosed c)

namespace Session

variable (x : Session)

theorem terminated_queueEvent (e : Event) : (x.queueEvent e).2.terminated = x.terminated := by
  unfold queueEvent
  split <;> rfl

theorem hangUp_id (k : Connection) : (x.hangUp k).id = k.id := by
  unfold hangUp
  split
  · rfl
  · exact congrArg Prod.fst k.label_close

/-- Handing events to a writer leaves the connection as open or closed as it was. -/
theorem label_writeAll (events : List Event) (k : Connection) :
    (writeAll events k).2.1.label = k.label := by
  induction events generalizing k with
  | nil => rfl
  | cons e rest ih =>
      have hsent : (write k e).2.label = k.label := k.label_send _
      unfold writeAll
      split
      · next k' heq =>
          rw [heq] at hsent
          exact hsent
      · next k' heq =>
          rw [heq] at hsent
          exact (ih k').trans hsent

theorem label_send (k : Connection) (e : Event) : (send k e).2.label = k.label := by
  have hwritten : (write k e).2.label = k.label := k.label_send _
  unfold send
  split
  · next k' heq =>
      rw [heq] at hwritten
      exact k'.label_flush.trans hwritten
  · next k' heq =>
      rw [heq] at hwritten
      exact hwritten

theorem label_drainEvents (k : Connection) : (x.drainEvents k).2.label = k.label := by
  unfold drainEvents
  split
  · rfl
  · have hwritten := label_writeAll x.events.items k
    dsimp only
    split
    · exact (Connection.label_flush _).trans hwritten
    · exact hwritten

end Session

namespace Lobby

variable {l l' : Lobby} {id c : ConnectionId}

theorem attendance_congr {f : Session → Session} (h : l'.session? c = (l.session? c).map f)
    (hf : ∀ x, (f x).commands = x.commands ∧ (f x).terminated = x.terminated)
    (hclosed : l'.connections.isClosed c = l.connections.isClosed c) :
    l'.attendance c = l.attendance c := by
  rw [attendance, attendance, h, Option.map_map, hclosed]
  congr 1
  funext x
  simp only [Function.comp_apply, (hf x).1, (hf x).2]

theorem attendance_of_eq (h : l'.session? c = l.session? c)
    (hclosed : l'.connections.isClosed c = l.connections.isClosed c) :
    l'.attendance c = l.attendance c := by
  rw [attendance, attendance, h, hclosed]

theorem attendance_broadcast (l : Lobby) (e : Event) (c : ConnectionId) :
    (l.broadcast e).attendance c = l.attendance c :=
  attendance_congr (l.session?_broadcast c e)
    (fun x => ⟨x.commands_queueEvent e, x.terminated_queueEvent e⟩) rfl

theorem attendance_queueEvent (l : Lobby) (id : ConnectionId) (e : Event) (c : ConnectionId) :
    (l.queueEvent id e).2.attendance c = l.attendance c := by
  have h := l.session?_queueEvent id c e
  by_cases hc : c = id
  · subst hc
    rw [if_pos rfl] at h
    exact attendance_congr h (fun x => ⟨x.commands_queueEvent e, x.terminated_queueEvent e⟩) rfl
  · rw [if_neg hc] at h
    exact attendance_of_eq h rfl

theorem outline_drainEvents (l : Lobby) (id : ConnectionId) :
    (l.drainEvents id).connections.outline = l.connections.outline := by
  unfold drainEvents
  split
  · next x k _ hk =>
      have hid : k.id = id := by simpa using List.find?_some hk
      exact Connections.outline_modify fun k' hk' =>
        ((congrArg Prod.fst (x.label_drainEvents k)).trans hid).trans hk'.symm
  · rfl

theorem isClosed_drainEvents (l : Lobby) (id c : ConnectionId) :
    (l.drainEvents id).connections.isClosed c = l.connections.isClosed c := by
  unfold drainEvents
  split
  · next x k _ hk =>
      have hlabel := x.label_drainEvents k
      have hid : k.id = id := by simpa using List.find?_some hk
      refine Connections.isClosed_modify ?_ ?_ c
      · intro k' hk'
        exact ((congrArg Prod.fst hlabel).trans hid).trans hk'.symm
      · intro k' hk'
        obtain rfl : k = k' := Option.some.inj (hk.symm.trans hk')
        exact congrArg Prod.snd hlabel
  · rfl

theorem attendance_drainEvents (l : Lobby) (id c : ConnectionId) :
    (l.drainEvents id).attendance c = l.attendance c := by
  have hclosed := l.isClosed_drainEvents id c
  rcases l.session?_drainEvents id c with h | ⟨rfl, x, left, hx, -, h⟩
  · exact attendance_of_eq h hclosed
  · rw [attendance, attendance, h, hx, hclosed]
    rfl

theorem attendance_takeCommand (l : Lobby) (id c : ConnectionId) :
    (l.takeCommand id).2.attendance c = if c = id then
      (l.attendance id).map fun a => ((if a.2.1 then a.1 else a.1.pop.2), a.2) else l.attendance c := by
  have h := l.session?_takeCommand id c
  by_cases hc : c = id
  · subst hc
    rw [if_pos rfl] at h ⊢
    rw [attendance, attendance, h, Option.map_map, Option.map_map]
    congr 1
    funext x
    show (x.dequeueCommand.2.commands, x.dequeueCommand.2.terminated, l.connections.isClosed c) =
      ((if x.terminated then x.commands else x.commands.pop.2), x.terminated, _)
    unfold Session.dequeueCommand
    cases ht : x.terminated <;> simp [ht]
  · rw [if_neg hc] at h ⊢
    exact attendance_of_eq h rfl

theorem attendance_queueCommand (l : Lobby) (id c : ConnectionId) (command : Command) :
    (l.queueCommand id command).2.attendance c = if c = id then
      (l.attendance id).map fun a => ((if a.2.1 then a.1 else (a.1.offer command).2), a.2)
      else l.attendance c := by
  have h := l.session?_queueCommand id c command
  by_cases hc : c = id
  · subst hc
    rw [if_pos rfl] at h ⊢
    rw [attendance, attendance, h, Option.map_map, Option.map_map]
    congr 1
    funext x
    show ((x.queueCommand command).2.commands, (x.queueCommand command).2.terminated,
      l.connections.isClosed c) =
      ((if x.terminated then x.commands else (x.commands.offer command).2), x.terminated, _)
    unfold Session.queueCommand
    cases ht : x.terminated <;> simp [ht]
  · rw [if_neg hc] at h ⊢
    exact attendance_of_eq h rfl

theorem outline_terminate (l : Lobby) (id : ConnectionId) :
    (l.terminate id).connections.outline = l.connections.outline := by
  unfold terminate
  split
  · rfl
  · next x _ => exact Connections.outline_modify fun k _ => x.hangUp_id k

/-- Ending a session closes its connection, unless it had ended before. -/
theorem isClosed_terminate {l : Lobby} {c : ConnectionId} {x : Session}
    (hx : l.session? c = some x) : (l.terminate c).connections.isClosed c =
      if x.terminated then l.connections.isClosed c else true := by
  unfold terminate
  rw [hx]
  show ((l.connections.modify c x.hangUp).isClosed c) = _
  by_cases ht : x.terminated = true
  · rw [if_pos ht]
    exact Connections.isClosed_modify (fun k _ => x.hangUp_id k)
      (fun k _ => by rw [Session.hangUp, if_pos ht]) c
  · have hclose : x.hangUp = Connection.close := by
      funext k
      rw [Session.hangUp, if_neg ht]
    rw [if_neg ht, hclose, Connections.isClosed_close, decide_eq_true rfl, Bool.true_or]

theorem attendance_terminate (l : Lobby) (id c : ConnectionId) :
    (l.terminate id).attendance c = if c = id then
      (l.attendance id).map fun a => if a.2.1 then a else (a.1.clear, true, true)
      else l.attendance c := by
  have h := l.session?_terminate id c
  by_cases hc : c = id
  · subst hc
    rw [if_pos rfl] at h ⊢
    cases hx : l.session? c with
    | none =>
        rw [hx] at h
        rw [attendance, attendance, h, hx]
        rfl
    | some x =>
        rw [hx] at h
        rw [attendance, attendance, h, hx, isClosed_terminate hx]
        show some (x.terminate.commands, x.terminate.terminated, _) =
          some (if x.terminated then (x.commands, x.terminated, _) else (x.commands.clear, true, true))
        unfold Session.terminate
        cases ht : x.terminated <;> simp [ht]
  · rw [if_neg hc] at h ⊢
    refine attendance_of_eq h ?_
    unfold terminate
    split
    · rfl
    · next x _ => exact Connections.isClosed_modify_of_ne (fun k _ => x.hangUp_id k) hc

theorem attendance_endSession (l : Lobby) (id c : ConnectionId) :
    (l.endSession id).attendance c = if c = id then none else l.attendance c := by
  have h := l.session?_endSession id c
  by_cases hc : c = id
  · rw [if_pos hc] at h ⊢
    rw [attendance, h]
    rfl
  · have hterminated := l.attendance_terminate id c
    have hsession := l.session?_terminate id c
    rw [if_neg hc] at h hterminated hsession ⊢
    rw [← hterminated]
    exact attendance_of_eq (h.trans hsession.symm) rfl

theorem outline_endSession (l : Lobby) (id : ConnectionId) :
    (l.endSession id).connections.outline = l.connections.outline := l.outline_terminate id

end Lobby

end Realm
