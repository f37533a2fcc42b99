import Realm.Proofs.Session.Roll

/-!
# The session of a connection

What each operation on the lobby does to the session that is found for a connection. All of them
concern the session of one connection, but for a broadcast, which treats all sessions alike.
-/

namespace Realm

namespace Session

variable (x : Session)

theorem dequeueCommand_of_none (h : x.dequeueCommand.1 = none) : x.dequeueCommand.2 = x := by
  unfold dequeueCommand at h ⊢
  by_cases ht : x.terminated = true
  · rw [if_pos ht]
  · rw [if_neg ht] at h ⊢
    cases hitems : x.commands.items with
    | nil => simp [Bounded.pop, hitems]
    | cons command rest => simp [Bounded.pop, hitems] at h

/-- A command that is taken was the first one of a session that has not ended. -/
theorem dequeueCommand_of_some {command : Command} (h : x.dequeueCommand.1 = some command) :
    x.terminated = false ∧ ∃ rest, x.commands.items = command :: rest ∧
      x.dequeueCommand.2 = { x with commands := { x.commands with items := rest } } := by
  unfold dequeueCommand at h ⊢
  by_cases ht : x.terminated = true
  · rw [if_pos ht] at h
    cases h
  · rw [if_neg ht] at h ⊢
    cases hitems : x.commands.items with
    | nil => simp [Bounded.pop, hitems] at h
    | cons first rest =>
        obtain rfl : first = command := by simpa [Bounded.pop, hitems] using h
        exact ⟨by simpa using ht, rest, rfl, by simp [Bounded.pop, hitems]⟩

theorem commands_queueEvent (e : Event) : (x.queueEvent e).2.commands = x.commands := by
  unfold queueEvent
  split <;> rfl

theorem commands_terminate_sublist : x.terminate.commands.items.Sublist x.commands.items := by
  unfold terminate
  split
  · exact .refl _
  · exact List.nil_sublist _

theorem commands_queueCommand_sublist (command : Command) :
    (x.queueCommand command).2.commands.items.Sublist (x.commands.items ++ [command]) := by
  unfold queueCommand
  split
  · exact List.sublist_append_left _ _
  · unfold Bounded.offer
    dsimp only
    split
    · exact List.sublist_append_left _ _
    · exact .refl _

/-- The events that a writer leaves are the last ones. -/
theorem writeAll_suffix (events : List Event) (k : Connection) :
    (writeAll events k).1 <:+ events := by
  induction events generalizing k with
  | nil => exact List.suffix_rfl
  | cons e rest ih =>
      unfold writeAll
      split
      · exact List.suffix_cons e rest
      · next k' _ => exact (ih k').trans (List.suffix_cons e rest)

/-- Draining takes events from the front of the queue and does nothing else to the session. -/
theorem drainEvents_eq (k : Connection) : ∃ left, left <:+ x.events.items ∧
    (x.drainEvents k).1 = { x with events := { x.events with items := left } } := by
  unfold drainEvents
  split
  · exact ⟨_, List.suffix_rfl, rfl⟩
  · exact ⟨_, writeAll_suffix _ _, rfl⟩

end Session

namespace Sessions

variable (r : Sessions) {id c : ConnectionId} {f : Session → Session}

theorem get?_map (hf : ∀ x, (f x).connection = x.connection) (c : ConnectionId) :
    (⟨r.sessions.map f⟩ : Sessions).get? c = (r.get? c).map f := by
  have hp : (fun x : Session => decide (x.connection = c)) ∘ f =
      fun x => decide (x.connection = c) := by
    funext x
    simp [hf]
  rw [get?, List.find?_map, hp]
  rfl

theorem get?_modify (hf : ∀ x, x.connection = id → (f x).connection = id) (c : ConnectionId) :
    (r.modify id f).get? c = if c = id then (r.get? id).map f else r.get? c := by
  have hg : ∀ x : Session, (if x.connection = id then f x else x).connection = x.connection := by
    intro x
    split
    · next h => exact (hf x h).trans h.symm
    · rfl
  have hmap : (r.modify id f).get? c = (r.get? c).map fun x => if x.connection = id then f x else x :=
    r.get?_map hg c
  rw [hmap]
  cases hx : r.get? c with
  | none =>
      by_cases hc : c = id
      · rw [if_pos hc, ← hc, hx]
        rfl
      · rw [if_neg hc]
        rfl
  | some x =>
      have hconnection := (get?_eq_some hx).2
      by_cases hc : c = id
      · rw [if_pos hc, ← hc, hx, Option.map_some, Option.map_some, if_pos hconnection]
      · rw [if_neg hc, Option.map_some, if_neg (hconnection ▸ hc)]

theorem get?_remove (id c : ConnectionId) :
    (r.remove id).2.get? c = if c = id then none else r.get? c := by
  rw [remove, get?, List.find?_filter]
  by_cases hc : c = id
  · rw [if_pos hc, List.find?_eq_none]
    intro x _
    simp [hc]
  · rw [if_neg hc, get?]
    congr 1
    funext x
    by_cases hx : x.connection = c
    · simp [hx, hc]
    · simp [hx]

theorem find?_insertSession (new : Session) (sessions : List Session) (c : ConnectionId) :
    (insertSession new sessions).find? (fun x => x.connection = c) =
      if c = new.connection then some new else sessions.find? fun x => x.connection = c := by
  induction sessions with
  | nil => simp [insertSession, eq_comm]
  | cons x rest ih =>
      have hswap : new.connection = c ↔ c = new.connection := eq_comm
      unfold insertSession
      by_cases hlt : new.connection < x.connection
      · rw [if_pos hlt, List.find?_cons]
        by_cases hc : c = new.connection <;> simp [hc, hswap]
      · rw [if_neg hlt]
        by_cases heq : new.connection = x.connection
        · rw [if_pos heq, List.find?_cons, List.find?_cons, ← heq]
          by_cases hc : c = new.connection <;> simp [hc, hswap]
        · rw [if_neg heq, List.find?_cons, List.find?_cons]
          by_cases hx : x.connection = c
          · have hc : ¬ c = new.connection := fun h => heq (h.symm.trans hx.symm)
            simp [hx, hc]
          · simpa [hx] using ih

theorem get?_put (new : Session) (c : ConnectionId) :
    (r.put new).2.get? c = if c = new.connection then some new else r.get? c :=
  find?_insertSession new r.sessions c

end Sessions

namespace Lobby

variable (l : Lobby) (id c : ConnectionId)

theorem session?_modifySession {f : Session → Session} (hf : ∀ x, (f x).bond = x.bond) :
    (l.modifySession id f).session? c =
      if c = id then (l.session? id).map f else l.session? c :=
  l.sessions.get?_modify (fun x hx => (congrArg Bond.connection (hf x)).trans hx) c

theorem session?_queueCommand (command : Command) : (l.queueCommand id command).2.session? c =
    if c = id then (l.session? id).map fun x => (x.queueCommand command).2 else l.session? c :=
  l.session?_modifySession id c fun x => x.bond_queueCommand command

theorem session?_queueEvent (e : Event) : (l.queueEvent id e).2.session? c =
    if c = id then (l.session? id).map fun x => (x.queueEvent e).2 else l.session? c :=
  l.session?_modifySession id c fun x => x.bond_queueEvent e

theorem session?_takeCommand : (l.takeCommand id).2.session? c =
    if c = id then (l.session? id).map (·.dequeueCommand.2) else l.session? c :=
  l.session?_modifySession id c Session.bond_dequeueCommand

theorem session?_broadcast (e : Event) :
    (l.broadcast e).session? c = (l.session? c).map fun x => (x.queueEvent e).2 :=
  l.sessions.get?_map (fun x => congrArg Bond.connection (x.bond_queueEvent e)) c

theorem session?_terminate : (l.terminate id).session? c =
    if c = id then (l.session? id).map Session.terminate else l.session? c := by
  unfold terminate
  cases hx : l.session? id with
  | none =>
      by_cases hc : c = id
      · rw [if_pos hc, hc, hx]
        rfl
      · rw [if_neg hc]
  | some x =>
      have hmodify := l.session?_modifySession id c Session.bond_terminate
      rw [hx] at hmodify
      exact hmodify

theorem session?_endSession :
    (l.endSession id).session? c = if c = id then none else l.session? c := by
  have hremove := (l.terminate id).sessions.get?_remove id c
  have hterminate := l.session?_terminate id c
  by_cases hc : c = id
  · rw [if_pos hc] at hremove ⊢
    exact hremove
  · rw [if_neg hc] at hremove hterminate ⊢
    exact hremove.trans hterminate

/-- Draining takes events from the front of the queue of one session. -/
theorem session?_drainEvents : (l.drainEvents id).session? c = l.session? c ∨
    c = id ∧ ∃ x left, l.session? id = some x ∧ left <:+ x.events.items ∧
      (l.drainEvents id).session? c =
        some { x with events := { x.events with items := left } } := by
  unfold drainEvents
  split
  · next x k hx hk =>
      obtain ⟨left, hleft, hdrained⟩ := x.drainEvents_eq k
      have hconnection := (Sessions.get?_eq_some hx).2
      have hget : ((l.modifySession id fun _ => (x.drainEvents k).1).modifyConnection id
          fun _ => (x.drainEvents k).2).session? c =
          if c = id then some (x.drainEvents k).1 else l.session? c := by
        have hkept : ∀ y : Session, y.connection = id → (x.drainEvents k).1.connection = id :=
          fun _ _ => (congrArg Session.connection hdrained).trans hconnection
        have hmodify := l.sessions.get?_modify (f := fun _ => (x.drainEvents k).1) hkept c
        rw [show l.sessions.get? id = some x from hx, Option.map_some] at hmodify
        exact hmodify
      by_cases hc : c = id
      · refine .inr ⟨hc, x, left, hx, hleft, ?_⟩
        rw [if_pos hc] at hget
        exact hget.trans (congrArg some hdrained)
      · rw [if_neg hc] at hget
        exact .inl hget
  · exact .inl rfl

theorem takeCommand_eq_self (hn : (l.roll.map (·.connection)).Nodup)
    (hnone : (l.takeCommand id).1 = none) : (l.takeCommand id).2 = l := by
  have hsame : ∀ x ∈ l.sessions.sessions, x.connection = id → x.dequeueCommand.2 = x := by
    intro x hx hid
    obtain ⟨y, hy, hbond⟩ := Sessions.get?_of_mem_roll hn (List.mem_map_of_mem hx)
    have hm := (Sessions.get?_eq_some hy).1
    have heq : y = x := by
      have hn' := l.sessions.connections_roll ▸ hn
      exact List.inj_on_of_nodup_map hn' hm hx (congrArg Bond.connection hbond)
    have hnone : (l.session? id).bind (fun x => x.dequeueCommand.1) = none := hnone
    have hx' : l.session? id = some x := by
      rw [← hid, ← heq]
      exact heq ▸ hy
    rw [hx', Option.bind_some] at hnone
    exact x.dequeueCommand_of_none hnone
  have hmap : l.sessions.sessions.map
      (fun x => if x.connection = id then x.dequeueCommand.2 else x) = l.sessions.sessions := by
    refine (List.map_congr_left fun x hx => ?_).trans (List.map_id _)
    by_cases hid : x.connection = id
    · rw [if_pos hid, hsame x hx hid]
      rfl
    · rw [if_neg hid]
      rfl
  rw [takeCommand, modifySession, Sessions.modify, hmap]

/-! ## The commands that wait -/

def pending : List Command := ((l.session? c).map (·.commands.items)).getD []

variable {l c id}

theorem pending_of_session? {x : Session} (hx : l.session? c = some x) :
    l.pending c = x.commands.items := by rw [pending, hx]; rfl

theorem pending_of_none (hnone : l.session? c = none) : l.pending c = [] := by
  rw [pending, hnone]
  rfl

theorem pending_congr {l' : Lobby} {f : Session → Session}
    (h : l'.session? c = (l.session? c).map f) (hf : ∀ x, (f x).commands = x.commands) :
    l'.pending c = l.pending c := by
  have hitems : (fun x : Session => x.commands.items) ∘ f = fun x => x.commands.items :=
    funext fun x => congrArg Bounded.items (hf x)
  rw [pending, pending, h, Option.map_map, hitems]

theorem pending_of_ne {l' : Lobby} (h : l'.session? c = l.session? c) : l'.pending c = l.pending c := by
  rw [pending, pending, h]

variable (l c id)

theorem pending_broadcast (e : Event) : (l.broadcast e).pending c = l.pending c :=
  pending_congr (l.session?_broadcast c e) fun x => x.commands_queueEvent e

theorem pending_queueEvent (e : Event) : (l.queueEvent id e).2.pending c = l.pending c := by
  have h := l.session?_queueEvent id c e
  by_cases hc : c = id
  · subst hc
    rw [if_pos rfl] at h
    exact pending_congr h fun x => x.commands_queueEvent e
  · rw [if_neg hc] at h
    exact pending_of_ne h

theorem pending_endSession :
    (l.endSession id).pending c = if c = id then [] else l.pending c := by
  have h := l.session?_endSession id c
  by_cases hc : c = id
  · rw [if_pos hc] at h ⊢
    exact pending_of_none h
  · rw [if_neg hc] at h ⊢
    exact pending_of_ne h

theorem pending_drainEvents : (l.drainEvents id).pending c = l.pending c := by
  rcases l.session?_drainEvents id c with h | ⟨rfl, x, left, hx, -, h⟩
  · exact pending_of_ne h
  · rw [pending_of_session? h, pending_of_session? hx]

theorem pending_terminate_sublist : ((l.terminate id).pending c).Sublist (l.pending c) := by
  have h := l.session?_terminate id c
  by_cases hc : c = id
  · subst hc
    rw [if_pos rfl] at h
    cases hx : l.session? c with
    | none =>
        rw [hx] at h
        rw [pending_of_none h]
        exact List.nil_sublist _
    | some x =>
        rw [hx] at h
        rw [pending_of_session? h, pending_of_session? hx]
        exact x.commands_terminate_sublist
  · rw [if_neg hc] at h
    rw [pending_of_ne h]

theorem pending_queueCommand_sublist (command : Command) :
    ((l.queueCommand id command).2.pending c).Sublist
      (l.pending c ++ if id = c then [command] else []) := by
  have h := l.session?_queueCommand id c command
  by_cases hc : c = id
  · subst hc
    rw [if_pos rfl] at h ⊢
    cases hx : l.session? c with
    | none =>
        rw [hx] at h
        rw [pending_of_none h]
        exact List.nil_sublist _
    | some x =>
        rw [hx] at h
        rw [pending_of_session? h, pending_of_session? hx]
        exact x.commands_queueCommand_sublist command
  · rw [if_neg hc] at h
    rw [pending_of_ne h]
    exact List.sublist_append_left _ _

theorem pending_takeCommand {x : Session} {command : Command} (hx : l.session? id = some x)
    (h : x.dequeueCommand.1 = some command) :
    l.pending id = command :: (l.takeCommand id).2.pending id := by
  obtain ⟨-, rest, hitems, hafter⟩ := x.dequeueCommand_of_some h
  have htaken : (l.takeCommand id).2.session? id = some x.dequeueCommand.2 := by
    rw [l.session?_takeCommand, if_pos rfl, hx]
    rfl
  rw [pending_of_session? hx, pending_of_session? htaken, hitems, hafter]

theorem pending_takeCommand_of_ne (hc : c ≠ id) :
    (l.takeCommand id).2.pending c = l.pending c :=
  pending_of_ne ((l.session?_takeCommand id c).trans (if_neg hc))

end Lobby

end Realm
