import Realm.Proofs.Session.Handover
import Realm.Proofs.Simulation.Announcement
import Realm.Proofs.Simulation.Isolation
import Realm.Proofs.Simulation.Pushing

/-!
# What draining takes from a session

An account of the events of a session over deeds, over events and over runs: what waited and what
came in is, in order, what draining took and what still waits. Of what it took, what was accepted
has been written to the connection as packets, in this order, and nothing else has.
-/

namespace Realm

variable {rules : GameRules} {s : Simulation} {c : ConnectionId} {x y : Session} {k : Connection}
  {stage : Stage GameComponent Lobby} {d : Deed} {ds : List Deed} {p : Scene}
  {t t' t'' : Connections}

/-! ## Closing a connection -/

namespace Connections

def letters (t : Connections) (c : ConnectionId) : List Wire.Packet :=
  Outbound.packetsIn (t.waiting c)

/-- A connection is the same in two tables, or it was closed in between. -/
def Closes (c : ConnectionId) (t t' : Connections) : Prop :=
  t'.find? c = t.find? c ∨ t'.find? c = (t.find? c).map Connection.close

namespace Closes

theorem refl (c : ConnectionId) (t : Connections) : Closes c t t := .inl rfl

theorem trans (h : Closes c t t') (h' : Closes c t' t'') : Closes c t t'' := by
  have htwice : Connection.close ∘ Connection.close = Connection.close :=
    funext fun k => Connection.close_of_closed k.closed_close
  rcases h with h | h
  · rcases h' with h' | h'
    · exact .inl (h'.trans h)
    · exact .inr (h'.trans (congrArg _ h))
  · rcases h' with h' | h'
    · exact .inr (h'.trans h)
    · rw [h, Option.map_map, htwice] at h'
      exact .inr h'

/-- A connection that is open was so before, and nothing was done to it. -/
theorem find?_of_open (h : Closes c t t') (hk : t'.find? c = some k) (hopen : k.closed = false) :
    t.find? c = some k := by
  rcases h with h | h
  · exact h.symm.trans hk
  · rw [hk] at h
    obtain ⟨k₀, -, rfl⟩ := Option.map_eq_some_iff.mp h.symm
    rw [k₀.closed_close] at hopen
    cases hopen

/-- Closing writes no packet. -/
theorem letters_eq (h : Closes c t t') : t'.letters c = t.letters c := by
  have hclose : ∀ k : Connection,
      Outbound.packetsIn k.close.queue.items = Outbound.packetsIn k.queue.items := by
    intro k
    have hitems : k.close.queue.items = k.queue.items ++ k.accepts .close :=
      k.yields_append_items .close
    have hnone : Outbound.packetsIn (k.accepts .close) = [] := by
      rw [Connection.accepts]
      split <;> rfl
    rw [hitems, Outbound.packetsIn_append, hnone, List.append_nil]
  rcases h with h | h
  · rw [letters, waiting, h]
    rfl
  · rw [letters, letters, waiting, waiting, h]
    cases t.find? c with
    | none => rfl
    | some k => exact hclose k

theorem modify (t : Connections) (client c : ConnectionId) :
    Closes c t (t.modify client Connection.close) := by
  have hfound := find?_modify (t := t) (f := Connection.close)
    (fun k (_ : k.id = client) => congrArg Prod.fst k.label_close) c
  by_cases hc : c = client
  · rw [if_pos hc, ← hc] at hfound
    exact .inr (hc ▸ hfound)
  · rw [if_neg hc] at hfound
    exact .inl hfound

theorem terminate (l : Lobby) (client c : ConnectionId) :
    Closes c l.connections (l.terminate client).connections := by
  unfold Lobby.terminate
  split
  · exact .refl c _
  · next x _ =>
      by_cases ht : x.terminated = true
      · have hsame : x.hangUp = id := funext fun k => if_pos ht
        have hnone : l.connections.modify client x.hangUp = l.connections := by
          rw [hsame, Connections.modify]
          simp
        exact .inl (congrArg (·.find? c) hnone)
      · have hclose : x.hangUp = Connection.close := funext fun k => if_neg ht
        have hended : Closes c l.connections (l.connections.modify client x.hangUp) :=
          hclose ▸ modify l.connections client c
        exact hended

end Closes

end Connections

/-! ## One deed -/

namespace Deed

def drains (c : ConnectionId) : Deed → Bool
  | .drain _ client => client = c
  | _ => false

theorem exists_of_drains (hd : d.drains c = true) : ∃ h, d = .drain h c := by
  cases d with
  | drain h client => exact ⟨h, congrArg (Deed.drain h) (of_decide_eq_true hd)⟩
  | _ => cases hd

/-- What does not drain a session at most closes its connection. -/
theorem closes_lobby (hd : d.drains c = false) (l : Lobby) :
    l.connections.Closes c (d.lobby l).connections := by
  cases d with
  | reap h client => exact .terminate l client c
  | obey h client command =>
      cases command with
      | logout => exact .terminate (l.takeCommand client).2 client c
      | _ => exact .refl c _
  | advance h position => exact .refl c _
  | appear h => exact .refl c _
  | drain h client =>
      have hne : c ≠ client := fun heq => of_decide_eq_false hd heq.symm
      exact .inl (congrArg Prod.snd ((l.seat_drainEvents client c).trans (if_neg hne)))

end Deed

namespace Scene

/-- The events that a deed takes from the session of a connection for its writer. -/
def drained (c : ConnectionId) (p : Scene) : List Handed :=
  if p.deed.drains c then Lobby.handed (p.lobby.seat c) else []

/-- A deed that drains a session does nothing else. -/
theorem Proper.seat_of_drains (hp : p.Proper) (hd : p.deed.drains c = true) :
    p.after.shared.seat c = Lobby.drainSeat (p.lobby.seat c) := by
  have hshared : p.after.shared = p.deed.lobby p.lobby := hp.done.shared_eq
  obtain ⟨h, hdeed⟩ := Deed.exists_of_drains hd
  rw [hshared, hdeed]
  exact (p.lobby.seat_drainEvents c c).trans (if_pos rfl)

/-- What waits in a session that stays and what it takes of a deed is what the deed takes from it
and what then waits. -/
theorem Proper.items_eq_drained (hp : p.Proper) (hx : p.lobby.session? c = some x)
    (hy : p.after.shared.session? c = some y) :
    x.events.items ++ (p.heard c).toList = (p.drained c).map (·.event) ++ y.events.items := by
  unfold drained
  by_cases hd : p.deed.drains c = true
  · have hnone : p.heard c = none := by
      obtain ⟨h, hdeed⟩ := Deed.exists_of_drains hd
      rw [heard, hdeed]
      exact ite_self none
    have hafter := congrArg Prod.fst (hp.seat_of_drains hd)
    rw [if_pos hd, hnone, Option.toList_none, List.append_nil]
    exact Lobby.items_drainSeat hx (hafter.symm.trans hy)
  · obtain ⟨gone, hgone, hfront⟩ := hp.items_eq hx hy
    have hnil : gone = [] := by
      by_contra hne
      obtain ⟨h, hdeed⟩ := hfront hne
      exact hd (hdeed ▸ decide_eq_true rfl)
    rw [if_neg hd, hgone, hnil]
    rfl

/-- A deed writes to a connection what it takes from its session and the writer accepts. -/
theorem Proper.letters_eq (hp : p.Proper) (c : ConnectionId) :
    p.after.shared.connections.letters c =
      p.lobby.connections.letters c ++ (Handed.written (p.drained c)).map Event.toPacket := by
  unfold drained
  by_cases hd : p.deed.drains c = true
  · have hafter := congrArg Prod.snd (hp.seat_of_drains hd)
    change p.after.shared.connections.find? c = _ at hafter
    rw [if_pos hd, Connections.letters, Connections.waiting, hafter]
    exact Lobby.packetsIn_drainSeat _
  · have hshared : p.after.shared = p.deed.lobby p.lobby := hp.done.shared_eq
    have hcloses := Deed.closes_lobby (Bool.eq_false_of_not_eq_true hd) p.lobby
    rw [if_neg hd, hshared, hcloses.letters_eq]
    exact (List.append_nil _).symm

end Scene

/-! ## Deeds -/

namespace Deed

namespace Course

theorem items_eq_drained (h : Course stage ds) (hr : Ready stage)
    (hx : stage.shared.session? c = some x)
    (hy : (performAll ds stage).shared.session? c = some y) :
    x.events.items ++ (scenes stage ds).filterMap (·.heard c) =
      ((scenes stage ds).flatMap (·.drained c)).map (·.event) ++ y.events.items := by
  induction ds generalizing stage x with
  | nil =>
      obtain rfl : x = y := Option.some.inj (hx.symm.trans hy)
      exact List.append_nil _
  | cons d ds ih =>
      have hproper : (⟨stage, d⟩ : Scene).Proper := ⟨hr, h.1⟩
      have hready := hproper.done.ready
      -- Nobody joins at a deed, so who is there at the end was there all along.
      obtain ⟨hm, hc⟩ := Peopled.mem_roll hy
      obtain ⟨z, hz, -⟩ := hready.session_of_bond (h.2.roll_subset hready hm)
      have hz : (d.perform stage).shared.session? c = some z := hc ▸ hz
      have hfirst := hproper.items_eq_drained hx hz
      have hrest := ih h.2 hready hz hy
      have hcons : (scenes stage (d :: ds)).filterMap (·.heard c) =
          ((⟨stage, d⟩ : Scene).heard c).toList ++
            (scenes (d.perform stage) ds).filterMap (·.heard c) := by
        rw [scenes, List.filterMap_cons]
        cases (⟨stage, d⟩ : Scene).heard c <;> rfl
      rw [hcons, ← List.append_assoc, hfirst, List.append_assoc, hrest, scenes, List.flatMap_cons,
        List.map_append, List.append_assoc]

theorem letters_eq (h : Course stage ds) (hr : Ready stage) (c : ConnectionId) :
    (performAll ds stage).shared.connections.letters c = stage.shared.connections.letters c ++
      (Handed.written ((scenes stage ds).flatMap (·.drained c))).map Event.toPacket := by
  induction ds generalizing stage with
  | nil => exact (List.append_nil _).symm
  | cons d ds ih =>
      have hproper : (⟨stage, d⟩ : Scene).Proper := ⟨hr, h.1⟩
      have hfirst : (d.perform stage).shared.connections.letters c = _ := hproper.letters_eq c
      have hrest := ih h.2 hproper.done.ready
      rw [scenes, List.flatMap_cons, Handed.written_append, List.map_append, ← List.append_assoc]
      exact hrest.trans (congrArg (· ++ _) hfirst)

/-- Deeds that do not drain a session at most close its connection. -/
theorem closes (h : Course stage ds) (hr : Ready stage) (hds : ∀ d ∈ ds, d.drains c = false) :
    stage.shared.connections.Closes c (performAll ds stage).shared.connections := by
  induction ds generalizing stage with
  | nil => exact .refl c _
  | cons d ds ih =>
      have hdone := h.1.done hr
      have hfirst := closes_lobby (hds d List.mem_cons_self) stage.shared
      rw [← hdone.shared_eq] at hfirst
      exact hfirst.trans (ih h.2 hdone.ready fun d' hd' => hds d' (List.mem_cons_of_mem d hd'))

end Course

end Deed

/-! ## A run -/

namespace Simulation

/-- The events that are taken from the session of a connection in a run, for its writer. -/
def drained (rules : GameRules) (c : ConnectionId) (s : Simulation)
    (events : List SimulationEvent) : List Handed :=
  (s.scenes rules events).flatMap (·.drained c)

theorem drained_cons (rules : GameRules) (c : ConnectionId) (s : Simulation) (e : SimulationEvent)
    (events : List SimulationEvent) : s.drained rules c (e :: events) =
      (s.scenesOf rules e).flatMap (·.drained c) ++ (s.step e).drained rules c events :=
  List.flatMap_append

/-- While a session stays and is not ended, what waits and what it takes is what draining takes from
it and what then waits. -/
theorem Regular.items_eq_drained (h : s.Regular rules) {events : List SimulationEvent}
    (hstays : s.Stays c events) (hlasts : .terminate c ∉ events)
    (hx : s.lobby.session? c = some x) (hy : (s.run events).lobby.session? c = some y) :
    x.events.items ++ s.taken rules c events =
      (s.drained rules c events).map (·.event) ++ y.events.items := by
  induction events generalizing s x with
  | nil =>
      obtain rfl : x = y := Option.some.inj (hx.symm.trans hy)
      exact List.append_nil _
  | cons e events ih =>
      obtain ⟨hkept, hlater⟩ := not_or.mp (mt List.mem_cons.mpr hlasts)
      obtain ⟨z, hz⟩ := Option.isSome_iff_exists.mp hstays.tail.isSome
      have hrest := ih (h.step e) hstays.tail hlater hz hy
      have hquiet : (∀ delta, e ≠ .tick delta) → s.scenesOf rules e = [] →
          x.events.items ++ (s.scenesOf rules e).filterMap (·.heard c) =
            ((s.scenesOf rules e).flatMap (·.drained c)).map (·.event) ++ z.events.items := by
        intro hquiet hnone
        rcases items_step hquiet hx hz with heq | ⟨heq, -⟩
        · rw [hnone, heq]
          exact List.append_nil _
        · exact absurd heq.symm hkept
      have hfirst : x.events.items ++ (s.scenesOf rules e).filterMap (·.heard c) =
          ((s.scenesOf rules e).flatMap (·.drained c)).map (·.event) ++ z.events.items := by
        cases e with
        | tick delta =>
            have ht := h.ticks delta
            have hafter : (s.tick delta).2.lobby.session? c = some z := hz
            rw [ht.lobby_eq] at hafter
            exact ht.course.items_eq_drained ht.ready hx hafter
        | _ => exact hquiet nofun rfl
      have htaken : s.taken rules c (e :: events) =
          (s.scenesOf rules e).filterMap (·.heard c) ++ (s.step e).taken rules c events :=
        List.filterMap_append
      rw [htaken, drained_cons, ← List.append_assoc, hfirst, List.append_assoc, hrest,
        List.map_append, List.append_assoc]

/-- An event takes packets out of the queue of a player at the front, and puts those in at the end
that draining takes from the session and the writer accepts. -/
def Posts (rules : GameRules) (c : ConnectionId) (s : Simulation) (e : SimulationEvent) : Prop :=
  Outbound.packetsIn (s.outflow c e) ++ (s.step e).lobby.connections.letters c =
    s.lobby.connections.letters c ++
      (Handed.written ((s.scenesOf rules e).flatMap (·.drained c))).map Event.toPacket

theorem Posts.of_closes {e : SimulationEvent} (hscenes : s.scenesOf rules e = [])
    (hnone : s.outflow c e = [])
    (hcloses : s.lobby.connections.Closes c (s.step e).lobby.connections) : s.Posts rules c e := by
  rw [Posts, hscenes, hnone, hcloses.letters_eq]
  exact (List.append_nil _).symm

theorem Posts.of_outflow {e : SimulationEvent} (hscenes : s.scenesOf rules e = [])
    (hitems : s.outflow c e ++ (s.step e).lobby.connections.waiting c =
      s.lobby.connections.waiting c) : s.Posts rules c e := by
  have hpackets : Outbound.packetsIn (s.outflow c e) ++ (s.step e).lobby.connections.letters c =
      s.lobby.connections.letters c := by
    rw [Connections.letters, Connections.letters, ← hitems, Outbound.packetsIn_append]
  rw [Posts, hscenes, hpackets]
  exact (List.append_nil _).symm

theorem Regular.posts (h : s.Regular rules) (hx : s.lobby.session? c = some x)
    (e : SimulationEvent) : s.Posts rules c e := by
  cases e with
  | register address size =>
      have hfound := s.lobby.connections.find?_register address size c
      refine .of_outflow rfl ?_
      show ((s.lobby.connections.register address size).2).waiting c = _
      rw [Connections.waiting, Connections.waiting, hfound]
      cases s.lobby.connections.find? c with
      | some k => rfl
      | none =>
          rw [Option.none_or]
          split <;> rfl
  | remove client =>
      refine .of_closes rfl rfl ?_
      show s.lobby.connections.Closes c (s.lobby.connections.remove client).2
      unfold Connections.remove
      split
      · exact .refl c _
      · exact .modify s.lobby.connections client c
  | close client => exact .of_closes rfl rfl (.modify s.lobby.connections client c)
  | drain client n => exact .of_outflow rfl (s.outflow_drain client c n)
  | dropWriter client => exact .of_outflow rfl (s.outflow_dropWriter client c)
  | terminate client => exact .of_closes rfl rfl (.terminate s.lobby client c)
  | mail client payload =>
      cases payload with
      | authenticated account =>
          refine .of_closes rfl rfl (.inl ?_)
          show (s.join client account).lobby.connections.find? c = _
          rcases s.join_cases client account with heq | ⟨hnone, f, hid, heq, -⟩
          · rw [heq]
          · -- Nobody who has a session joins.
            have hne : c ≠ client := by
              rintro rfl
              rw [hx] at hnone
              cases hnone
            rw [heq, Connections.find?_modify fun k _ => hid k, if_neg hne]
      | command command => exact .of_closes rfl rfl (.refl c _)
  | tick delta =>
      have ht := h.ticks delta
      show ((s.tick delta).2.lobby.connections.letters c) = _
      rw [ht.lobby_eq]
      exact ht.course.letters_eq ht.ready c

/-- What is written for a player while it has a session is what draining takes from the session and
the writer accepts. -/
theorem Regular.letters_eq (h : s.Regular rules) {events : List SimulationEvent}
    (hstays : s.Stays c events) :
    Outbound.packetsIn (s.gone c events) ++ (s.run events).lobby.connections.letters c =
      s.lobby.connections.letters c ++
        (Handed.written (s.drained rules c events)).map Event.toPacket := by
  induction events generalizing s with
  | nil => exact (List.append_nil _).symm
  | cons e events ih =>
      obtain ⟨x, hx⟩ := Option.isSome_iff_exists.mp hstays.isSome
      have hfirst : Outbound.packetsIn (s.outflow c e) ++ _ = _ := h.posts hx e
      have hrest := ih (h.step e) hstays.tail
      rw [gone, Outbound.packetsIn_append, List.append_assoc, drained_cons, Handed.written_append,
        List.map_append, ← List.append_assoc (s.lobby.connections.letters c), ← hfirst,
        List.append_assoc]
      exact congrArg _ hrest

end Simulation

end Realm
