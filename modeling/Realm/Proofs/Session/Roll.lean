import Mathlib.Algebra.Order.Ring.Nat
import Mathlib.Data.List.Nodup
import Realm.Simulation.Lobby

/-!
# The roll of the sessions

The roll says which account controls which entity through which connection. Most of what happens in
a lobby concerns queues and connections and leaves the roll alone; only ending a session and putting
a new one change it.
-/

namespace Realm

/-- What a session binds together for as long as it lives. -/
structure Bond where
  connection : ConnectionId
  account : AccountId
  entity : Handle
  deriving DecidableEq, Repr

def Session.bond (x : Session) : Bond := ⟨x.connection, x.account, x.entity⟩

namespace Session

variable (x : Session)

@[simp] theorem bond_queueCommand (c : Command) : (x.queueCommand c).2.bond = x.bond := by
  unfold queueCommand
  split <;> rfl

@[simp] theorem bond_dequeueCommand : x.dequeueCommand.2.bond = x.bond := by
  unfold dequeueCommand
  split <;> rfl

@[simp] theorem bond_queueEvent (e : Event) : (x.queueEvent e).2.bond = x.bond := by
  unfold queueEvent
  split <;> rfl

@[simp] theorem bond_terminate : x.terminate.bond = x.bond := by
  unfold terminate
  split <;> rfl

@[simp] theorem bond_drainEvents (c : Connection) : (x.drainEvents c).1.bond = x.bond := by
  unfold drainEvents
  split <;> rfl

end Session

namespace Sessions

def roll (r : Sessions) : List Bond := r.sessions.map Session.bond

variable {r : Sessions} {id : ConnectionId} {x : Session} {b : Bond}

theorem get?_eq_some (h : r.get? id = some x) : x ∈ r.sessions ∧ x.connection = id := by
  unfold get? at h
  exact ⟨List.mem_of_find?_eq_some h, by simpa using List.find?_some h⟩

/-- A session that is found has its bond on the roll. -/
theorem mem_roll_of_get? (h : r.get? id = some x) : x.bond ∈ r.roll :=
  List.mem_map_of_mem (get?_eq_some h).1

theorem get?_eq_none_iff : r.get? id = none ↔ ∀ b ∈ r.roll, b.connection ≠ id := by
  simp [get?, roll, Session.bond]

theorem connections_roll (r : Sessions) :
    r.roll.map (·.connection) = r.sessions.map (·.connection) := by
  rw [roll, List.map_map]
  rfl

/-- Where connections are on the roll once, a bond on it is found by its connection. -/
theorem get?_of_mem_roll (hn : (r.roll.map (·.connection)).Nodup) (hb : b ∈ r.roll) :
    ∃ x, r.get? b.connection = some x ∧ x.bond = b := by
  obtain ⟨y, hy, rfl⟩ := List.mem_map.mp hb
  cases hx : r.get? y.bond.connection with
  | none => exact absurd rfl (get?_eq_none_iff.mp hx y.bond hb)
  | some x =>
      obtain ⟨hm, hid⟩ := get?_eq_some hx
      rw [connections_roll] at hn
      exact ⟨x, rfl, congrArg Session.bond (List.inj_on_of_nodup_map hn hm hy hid)⟩

theorem roll_modify {f : Session → Session}
    (hf : ∀ x ∈ r.sessions, x.connection = id → (f x).bond = x.bond) :
    (r.modify id f).roll = r.roll := by
  rw [roll, modify, List.map_map, roll]
  refine List.map_congr_left ?_
  intro x hx
  by_cases hid : x.connection = id
  · simp [hid, hf x hx hid]
  · simp [hid]

theorem roll_modifyAll {f : Session → Session} (hf : ∀ x, (f x).bond = x.bond) :
    (r.modifyAll f).roll = r.roll := by
  rw [roll, modifyAll, List.map_map, roll]
  exact List.map_congr_left fun x _ => hf x

theorem roll_remove (r : Sessions) (id : ConnectionId) :
    (r.remove id).2.roll = r.roll.filter fun b => b.connection ≠ id := by
  rw [roll, remove, roll, List.filter_map]
  rfl

/-- A session put where its connection had none joins the roll. -/
theorem perm_insertSession {new : Session} {sessions : List Session}
    (h : ∀ x ∈ sessions, x.connection ≠ new.connection) :
    (insertSession new sessions).Perm (new :: sessions) := by
  induction sessions with
  | nil => exact .refl _
  | cons x rest ih =>
      have hne : new.connection ≠ x.connection := (h x List.mem_cons_self).symm
      have hrest := ih fun y hy => h y (List.mem_cons_of_mem x hy)
      unfold insertSession
      by_cases hlt : new.connection < x.connection
      · rw [if_pos hlt]
      · rw [if_neg hlt, if_neg hne]
        exact (hrest.cons x).trans (.swap new x rest)

theorem perm_roll_put {new : Session} (h : r.get? new.connection = none) :
    (r.put new).2.roll.Perm (new.bond :: r.roll) := by
  refine (perm_insertSession ?_).map Session.bond
  intro x hx
  exact get?_eq_none_iff.mp h x.bond (List.mem_map_of_mem hx)

end Sessions

namespace Lobby

/-- The bonds of all sessions. -/
def roll (l : Lobby) : List Bond := l.sessions.roll

variable (l : Lobby) (id : ConnectionId)

theorem roll_modifySession {f : Session → Session} (hf : ∀ x, (f x).bond = x.bond) :
    (l.modifySession id f).roll = l.roll := Sessions.roll_modify fun x _ _ => hf x

@[simp] theorem roll_terminate : (l.terminate id).roll = l.roll := by
  unfold terminate
  split
  · rfl
  · exact l.roll_modifySession id Session.bond_terminate

@[simp] theorem roll_broadcast (e : Event) : (l.broadcast e).roll = l.roll :=
  Sessions.roll_modifyAll fun x => x.bond_queueEvent e

@[simp] theorem roll_queueCommand (c : Command) : (l.queueCommand id c).2.roll = l.roll :=
  l.roll_modifySession id fun x => x.bond_queueCommand c

@[simp] theorem roll_queueEvent (e : Event) : (l.queueEvent id e).2.roll = l.roll :=
  l.roll_modifySession id fun x => x.bond_queueEvent e

@[simp] theorem roll_takeCommand : (l.takeCommand id).2.roll = l.roll :=
  l.roll_modifySession id Session.bond_dequeueCommand

@[simp] theorem roll_endSession :
    (l.endSession id).roll = l.roll.filter fun b => b.connection ≠ id := by
  have hroll : (l.terminate id).sessions.roll = l.sessions.roll := l.roll_terminate id
  have hremove := (l.terminate id).sessions.roll_remove id
  rw [hroll] at hremove
  exact hremove

/-- Draining puts the drained session in the place of the one it was drained from. -/
theorem roll_drainEvents (hn : (l.roll.map (·.connection)).Nodup) :
    (l.drainEvents id).roll = l.roll := by
  unfold drainEvents
  split
  · rename_i s c hs _
    refine Sessions.roll_modify ?_
    intro x hx hid
    obtain ⟨hm, hid'⟩ := Sessions.get?_eq_some hs
    have hn : (l.sessions.sessions.map (·.connection)).Nodup :=
      l.sessions.connections_roll ▸ hn
    rw [List.inj_on_of_nodup_map hn hx hm (hid.trans hid'.symm)]
    exact s.bond_drainEvents c
  · rfl

end Lobby

end Realm
