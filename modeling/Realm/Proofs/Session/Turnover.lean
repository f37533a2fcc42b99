import Realm.Proofs.Net.Ages
import Realm.Proofs.Session.Attendance

/-!
# Who comes to a lobby and who leaves it

A session that is ended and removed is spent: its queues are empty, and whatever is done to it later
changes nothing. While a lobby is in use the sessions that are there and those that left are those
that were there and those that came, and the connection of each that left is closed for good.
-/

namespace Realm

/-- What may be done to a session by whoever holds on to it. -/
inductive SessionUse where
  | queueCommand (command : Command)
  | dequeueCommand
  | queueEvent (event : Event)
  | dequeueEvent
  | terminate
  | drainEvents (connection : Connection)

namespace Session

def use (x : Session) : SessionUse → Session
  | .queueCommand command => (x.queueCommand command).2
  | .dequeueCommand => x.dequeueCommand.2
  | .queueEvent event => (x.queueEvent event).2
  | .dequeueEvent => x.dequeueEvent.2
  | .terminate => x.terminate
  | .drainEvents k => (x.drainEvents k).1

/-- The session has ended, and nothing waits in it. -/
structure Spent (x : Session) : Prop where
  terminated : x.terminated = true
  commands : x.commands.items = []
  events : x.events.items = []

variable {x : Session}

/-- Nothing brings an ended session back or changes it. -/
theorem Spent.use_eq (hx : x.Spent) (u : SessionUse) : x.use u = x := by
  cases u with
  | queueCommand command => simp [use, queueCommand, hx.terminated]
  | dequeueCommand => simp [use, dequeueCommand, hx.terminated]
  | queueEvent event => simp [use, queueEvent, hx.terminated]
  | dequeueEvent => simp [use, dequeueEvent, hx.terminated]
  | terminate => exact if_pos hx.terminated
  | drainEvents k => simp [use, drainEvents, hx.terminated]

theorem Spent.foldl_use (hx : x.Spent) (us : List SessionUse) : us.foldl use x = x := by
  induction us with
  | nil => rfl
  | cons u us ih =>
      rw [List.foldl_cons, hx.use_eq]
      exact ih

theorem spent_terminate (hx : x.terminated = true → x.Spent) : x.terminate.Spent := by
  unfold terminate
  by_cases ht : x.terminated = true
  · rw [if_pos ht]
    exact hx ht
  · rw [if_neg ht]
    exact ⟨rfl, rfl, rfl⟩

/-- Only one use ends a session. -/
theorem terminated_use (x : Session) {u : SessionUse} (hu : u ≠ .terminate) :
    (x.use u).terminated = x.terminated := by
  cases u with
  | terminate => exact absurd rfl hu
  | queueEvent event => exact x.terminated_queueEvent event
  | _ =>
      simp only [use, queueCommand, dequeueCommand, dequeueEvent, drainEvents]
      split <;> rfl

end Session

namespace Lobby

/-- The session that leaves the lobby when the session of a connection is ended, as it then is. -/
def ended (l : Lobby) (id : ConnectionId) : Option Session := ((l.terminate id).sessions.remove id).1

/-- The sessions that leave the lobby when those of some connections are ended. -/
def endings (l : Lobby) : List ConnectionId → List Session
  | [] => []
  | c :: rest => (l.ended c).toList ++ (l.endSession c).endings rest

/-- Each session belongs to a connection that was opened, no two to one; those that have ended are
spent and their connection is closed. -/
structure Consistent (l : Lobby) : Prop where
  numbered : l.connections.Numbered
  nodup : (l.roll.map (·.connection)).Nodup
  opened : ∀ b ∈ l.roll, b.connection ∈ l.connections.outline.1
  spent : ∀ c x, l.session? c = some x → x.terminated = true →
    x.Spent ∧ l.connections.isClosed c = true

/-- What happens between two states of a lobby: who comes and who leaves. -/
structure Turnover (l : Lobby) (come : List Bond) (gone : List Session) (l' : Lobby) : Prop where
  consistent : l'.Consistent
  ages : l.connections.Ages l'.connections
  perm : (l'.roll ++ gone.map Session.bond).Perm (l.roll ++ come)
  spent : ∀ x ∈ gone, x.Spent ∧ x.connection ∈ l'.connections.outline.1 ∧
    l'.connections.isClosed x.connection = true

variable {l l' l'' : Lobby} {come come' : List Bond} {gone gone' : List Session}
  {c id : ConnectionId}

/-! ## Turnovers in a row -/

namespace Turnover

theorem refl (h : l.Consistent) : l.Turnover [] [] l := ⟨h, .refl _, .refl _, nofun⟩

theorem trans (h : l.Turnover come gone l') (h' : l'.Turnover come' gone' l'') :
    l.Turnover (come ++ come') (gone ++ gone') l'' where
  consistent := h'.consistent
  ages := h.ages.trans h'.ages
  perm := by
    have hlast : (l''.roll ++ gone'.map Session.bond ++ gone.map Session.bond).Perm
        (l'.roll ++ come' ++ gone.map Session.bond) := h'.perm.append_right _
    have hfirst : (l'.roll ++ gone.map Session.bond ++ come').Perm (l.roll ++ come ++ come') :=
      h.perm.append_right _
    have hswap : (l'.roll ++ come' ++ gone.map Session.bond).Perm
        (l'.roll ++ gone.map Session.bond ++ come') := by
      rw [List.append_assoc, List.append_assoc]
      exact List.perm_append_comm.append_left _
    have hgone : (l''.roll ++ (gone ++ gone').map Session.bond).Perm
        (l''.roll ++ gone'.map Session.bond ++ gone.map Session.bond) := by
      rw [List.map_append, List.append_assoc]
      exact List.perm_append_comm.append_left _
    rw [← List.append_assoc]
    exact hgone.trans (hlast.trans (hswap.trans hfirst))
  spent := by
    intro x hx
    rcases List.mem_append.mp hx with hx | hx
    · obtain ⟨hspent, hopened, hclosed⟩ := h.spent x hx
      exact ⟨hspent, h'.ages.opened hopened, h'.ages.closed _ hopened hclosed⟩
    · exact h'.spent x hx

end Turnover

/-! ## Nobody comes or leaves -/

namespace Consistent

/-- The roll stays, and no session is changed that has ended. -/
theorem quiet (h : l.Consistent) (hroll : l'.roll = l.roll)
    (hages : l.connections.Ages l'.connections)
    (hspent : ∀ c y, l'.session? c = some y → y.terminated = true →
      y.Spent ∧ l'.connections.isClosed c = true) : l.Turnover [] [] l' where
  consistent := by
    refine ⟨hages.numbered h.numbered, hroll ▸ h.nodup, fun b hb => ?_, hspent⟩
    exact hages.opened (h.opened b (hroll ▸ hb))
  ages := hages
  perm := by
    rw [hroll]
    exact .refl _
  spent := nofun

theorem mem_opened (h : l.Consistent) {x : Session} (hx : l.session? c = some x) :
    c ∈ l.connections.outline.1 := by
  obtain ⟨-, rfl⟩ := Sessions.get?_eq_some hx
  exact h.opened x.bond (Sessions.mem_roll_of_get? hx)

/-- The sessions are used in a way that ends none of them. -/
theorem used (h : l.Consistent) (hroll : l'.roll = l.roll)
    (hages : l.connections.Ages l'.connections)
    (huse : ∀ c y, l'.session? c = some y →
      ∃ x, l.session? c = some x ∧ (y = x ∨ ∃ u, u ≠ .terminate ∧ y = x.use u)) :
    l.Turnover [] [] l' := by
  refine h.quiet hroll hages fun c y hy hended => ?_
  have hback : ∀ {x : Session}, l.session? c = some x → x.terminated = true →
      x.Spent ∧ l'.connections.isClosed c = true := by
    intro x hx ht
    obtain ⟨hspent, hclosed⟩ := h.spent c x hx ht
    exact ⟨hspent, hages.closed c (h.mem_opened hx) hclosed⟩
  obtain ⟨x, hx, rfl | ⟨u, hu, rfl⟩⟩ := huse c y hy
  · exact hback hx hended
  · obtain ⟨hspent, hclosed⟩ := hback hx ((x.terminated_use hu).symm.trans hended)
    rw [hspent.use_eq]
    exact ⟨hspent, hclosed⟩

/-- The session of one connection is used in a way that does not end it. -/
theorem usedAt (h : l.Consistent) (hroll : l'.roll = l.roll)
    (hconnections : l'.connections = l.connections) {u : SessionUse} (hu : u ≠ .terminate)
    (hsession : ∀ c, l'.session? c =
      if c = id then (l.session? id).map (·.use u) else l.session? c) :
    l.Turnover [] [] l' := by
  refine h.used hroll (hconnections ▸ .refl _) fun c y hy => ?_
  rw [hsession] at hy
  by_cases hc : c = id
  · rw [if_pos hc, ← hc] at hy
    obtain ⟨x, hx, rfl⟩ := Option.map_eq_some_iff.mp hy
    exact ⟨x, hx, .inr ⟨u, hu, rfl⟩⟩
  · rw [if_neg hc] at hy
    exact ⟨y, hy, .inl rfl⟩

theorem queueCommand (h : l.Consistent) (id : ConnectionId) (command : Command) :
    l.Turnover [] [] (l.queueCommand id command).2 :=
  h.usedAt (u := .queueCommand command) (l.roll_queueCommand id command) rfl nofun
    fun c => l.session?_queueCommand id c command

theorem queueEvent (h : l.Consistent) (id : ConnectionId) (e : Event) :
    l.Turnover [] [] (l.queueEvent id e).2 :=
  h.usedAt (u := .queueEvent e) (l.roll_queueEvent id e) rfl nofun
    fun c => l.session?_queueEvent id c e

theorem takeCommand (h : l.Consistent) (id : ConnectionId) :
    l.Turnover [] [] (l.takeCommand id).2 :=
  h.usedAt (u := .dequeueCommand) (l.roll_takeCommand id) rfl nofun
    fun c => l.session?_takeCommand id c

theorem broadcast (h : l.Consistent) (e : Event) : l.Turnover [] [] (l.broadcast e) := by
  refine h.used (l.roll_broadcast e) (.refl _) fun c y hy => ?_
  rw [l.session?_broadcast] at hy
  obtain ⟨x, hx, rfl⟩ := Option.map_eq_some_iff.mp hy
  exact ⟨x, hx, .inr ⟨.queueEvent e, nofun, rfl⟩⟩

/-- Connections may be used in any way, as long as the closed ones stay closed. -/
theorem withConnections (h : l.Consistent) {t : Connections} (hages : l.connections.Ages t) :
    l.Turnover [] [] { l with connections := t } :=
  h.used rfl hages fun _ y hy => ⟨y, hy, .inl rfl⟩

end Consistent

/-- Draining hands events to a writer and leaves every connection as open or closed as it was. -/
theorem ages_drainEvents (l : Lobby) (id : ConnectionId) :
    l.connections.Ages (l.drainEvents id).connections := by
  have houtline := l.outline_drainEvents id
  refine ⟨fun hn => ?_, houtline ▸ List.Subset.refl _, fun c _ hc => ?_, fun c _ hleft => ?_⟩
  · exact ⟨houtline ▸ hn.ids_eq, houtline ▸ hn.registered_nodup, houtline ▸ hn.registered_subset⟩
  · rw [l.isClosed_drainEvents, hc]
  · rw [houtline]
    exact hleft

theorem Consistent.drainEvents (h : l.Consistent) (id : ConnectionId) :
    l.Turnover [] [] (l.drainEvents id) := by
  have hages := l.ages_drainEvents id
  refine h.quiet (l.roll_drainEvents id h.nodup) hages fun c y hy hended => ?_
  rcases l.session?_drainEvents id c with hsame | ⟨rfl, x, left, hx, hleft, hdrained⟩
  · rw [hsame] at hy
    obtain ⟨hspent, hclosed⟩ := h.spent c y hy hended
    exact ⟨hspent, hages.closed c (h.mem_opened hy) hclosed⟩
  · rw [hdrained] at hy
    obtain rfl := Option.some.inj hy
    obtain ⟨hspent, hclosed⟩ := h.spent c x hx hended
    rw [hspent.events] at hleft
    exact ⟨⟨hended, hspent.commands, List.suffix_nil.mp hleft⟩,
      hages.closed c (h.mem_opened hx) hclosed⟩

/-! ## Sessions end -/

theorem ages_terminate (l : Lobby) (id : ConnectionId) :
    l.connections.Ages (l.terminate id).connections := by
  unfold terminate
  split
  · exact .refl _
  · next x _ =>
      refine Connections.ages_modify (fun k _ => x.hangUp_id k) fun k _ hclosed => ?_
      unfold Session.hangUp
      split
      · exact hclosed
      · exact congrArg Prod.snd k.label_close

/-- A session that is ended is spent, and its connection is closed. -/
theorem Consistent.spent_terminate (h : l.Consistent) {x : Session} (hx : l.session? c = some x) :
    x.terminate.Spent ∧ (l.terminate c).connections.isClosed c = true := by
  refine ⟨Session.spent_terminate fun ht => (h.spent c x hx ht).1, ?_⟩
  rw [isClosed_terminate hx]
  by_cases ht : x.terminated = true
  · rw [if_pos ht]
    exact (h.spent c x hx ht).2
  · rw [if_neg ht]

theorem Consistent.terminate (h : l.Consistent) (id : ConnectionId) :
    l.Turnover [] [] (l.terminate id) := by
  have hages := l.ages_terminate id
  refine h.quiet (l.roll_terminate id) hages fun c y hy hended => ?_
  rw [l.session?_terminate] at hy
  by_cases hc : c = id
  · rw [if_pos hc, ← hc] at hy
    obtain ⟨x, hx, rfl⟩ := Option.map_eq_some_iff.mp hy
    rw [← hc]
    exact h.spent_terminate hx
  · rw [if_neg hc] at hy
    obtain ⟨hspent, hclosed⟩ := h.spent c y hy hended
    exact ⟨hspent, hages.closed c (h.mem_opened hy) hclosed⟩

theorem ended_eq (l : Lobby) (c : ConnectionId) :
    l.ended c = (l.session? c).map Session.terminate := by
  have hterminated := l.session?_terminate c c
  rw [if_pos rfl] at hterminated
  exact hterminated

/-- The bonds of a roll but for that of one connection, and that one. -/
theorem perm_roll_endSession (hn : (l.roll.map (·.connection)).Nodup) (c : ConnectionId) :
    ((l.endSession c).roll ++ (l.ended c).toList.map Session.bond).Perm l.roll := by
  rw [roll_endSession, ended_eq]
  cases hx : l.session? c with
  | none =>
      have hnobody : ∀ b ∈ l.roll, b.connection ≠ c := Sessions.get?_eq_none_iff.mp hx
      rw [List.filter_eq_self.mpr fun b hb => decide_eq_true (hnobody b hb)]
      exact (List.append_nil _).symm ▸ .refl _
  | some x =>
      have hb : x.bond ∈ l.roll := Sessions.mem_roll_of_get? hx
      have hc : x.bond.connection = c := (Sessions.get?_eq_some hx).2
      have hfilter : l.roll.filter (fun b => b.connection ≠ c) = l.roll.erase x.bond := by
        have hroll : l.roll.Nodup := hn.of_map _
        rw [hroll.erase_eq_filter]
        refine List.filter_congr fun b hm => ?_
        by_cases heq : b = x.bond
        · simp [heq, hc]
        · have hne : b.connection ≠ c := fun h =>
            heq (List.inj_on_of_nodup_map hn hm hb (h.trans hc.symm))
          simp [heq, hne]
      have hgone : (((some x).map Session.terminate).toList.map Session.bond) = [x.bond] :=
        congrArg (fun b => [b]) x.bond_terminate
      rw [hfilter, hgone]
      exact List.perm_append_comm.trans (List.perm_cons_erase hb).symm

/-- Ending a session makes it leave. -/
theorem Consistent.endSession (h : l.Consistent) (c : ConnectionId) :
    l.Turnover [] (l.ended c).toList (l.endSession c) := by
  have hages := l.ages_terminate c
  have hperm := perm_roll_endSession h.nodup c
  have hsubset : (l.endSession c).roll ⊆ l.roll := fun b hb =>
    hperm.subset (List.mem_append_left _ hb)
  refine ⟨⟨hages.numbered h.numbered, ?_, fun b hb => ?_, fun c' y hy hended => ?_⟩, hages, ?_,
    fun x hx => ?_⟩
  · rw [roll_endSession]
    exact h.nodup.sublist (List.filter_sublist.map _)
  · exact hages.opened (h.opened b (hsubset hb))
  · rw [l.session?_endSession] at hy
    by_cases hc : c' = c
    · rw [if_pos hc] at hy
      cases hy
    · rw [if_neg hc] at hy
      obtain ⟨hspent, hclosed⟩ := h.spent c' y hy hended
      exact ⟨hspent, hages.closed c' (h.mem_opened hy) hclosed⟩
  · rw [List.append_nil]
    exact hperm
  · rw [Option.mem_toList, ended_eq] at hx
    obtain ⟨y, hy, rfl⟩ := Option.map_eq_some_iff.mp hx
    obtain ⟨hspent, hclosed⟩ := h.spent_terminate hy
    have hc : y.terminate.connection = c :=
      (congrArg Bond.connection y.bond_terminate).trans (Sessions.get?_eq_some hy).2
    rw [hc]
    exact ⟨hspent, hages.opened (h.mem_opened hy), hclosed⟩

theorem Consistent.endings (h : l.Consistent) (ids : List ConnectionId) :
    l.Turnover [] (l.endings ids) (ids.foldl Lobby.endSession l) := by
  induction ids generalizing l with
  | nil => exact .refl h
  | cons c rest ih =>
      have hfirst := h.endSession c
      exact hfirst.trans (ih hfirst.consistent)

/-- When the session of every connection on the roll is ended, nobody is left. -/
theorem roll_foldl_endSession (ids : List ConnectionId) (l : Lobby) :
    (ids.foldl Lobby.endSession l).roll = l.roll.filter fun b => b.connection ∉ ids := by
  induction ids generalizing l with
  | nil => exact (List.filter_eq_self.mpr fun _ _ => rfl).symm
  | cons c rest ih =>
      rw [List.foldl_cons, ih, roll_endSession, List.filter_filter]
      congr 1
      funext b
      simp [Bool.and_comm]

/-! ## A session begins -/

/-- A client that was not there comes with a new session. -/
theorem Consistent.put (h : l.Consistent) {x : Session} (hnew : l.session? x.connection = none)
    (hopened : x.connection ∈ l.connections.outline.1) (hlive : x.terminated = false) :
    l.Turnover [x.bond] [] { l with sessions := (l.sessions.put x).2 } := by
  have hroll : (l.sessions.put x).2.roll.Perm (x.bond :: l.sessions.roll) :=
    Sessions.perm_roll_put hnew
  have hnone : ∀ b ∈ l.roll, b.connection ≠ x.connection := Sessions.get?_eq_none_iff.mp hnew
  refine ⟨⟨h.numbered, ?_, fun b hb => ?_, fun c y hy hended => ?_⟩, .refl _, ?_, nofun⟩
  · refine (hroll.map _).nodup_iff.mpr (List.nodup_cons.mpr ⟨fun hm => ?_, h.nodup⟩)
    obtain ⟨b, hb, heq⟩ := List.mem_map.mp hm
    exact hnone b hb heq
  · rcases List.mem_cons.mp (hroll.mem_iff.mp hb) with rfl | hb
    · exact hopened
    · exact h.opened b hb
  · have hput : (l.sessions.put x).2.get? c = some y := hy
    rw [l.sessions.get?_put] at hput
    by_cases hc : c = x.connection
    · rw [if_pos hc] at hput
      obtain rfl := Option.some.inj hput
      rw [hlive] at hended
      cases hended
    · rw [if_neg hc] at hput
      exact h.spent c y hput hended
  · show ((l.sessions.put x).2.roll ++ []).Perm (l.sessions.roll ++ [x.bond])
    rw [List.append_nil]
    have hlast : (x.bond :: l.sessions.roll).Perm (l.sessions.roll ++ [x.bond]) :=
      (List.perm_append_singleton x.bond l.sessions.roll).symm
    exact hroll.trans hlast

theorem consistent_empty : Lobby.empty.Consistent := by
  refine ⟨Connections.numbered_empty, List.nodup_nil, nofun, fun c x hx => ?_⟩
  cases hx

end Lobby

end Realm
