import Realm.Proofs.Session.Feed
import Realm.Proofs.Simulation.Scene

/-!
# Pushes follow packets where there is room

Main statement: whatever reached a new simulation, the items that the queue of an open connection has
accepted end with a flush, unless the step that made it accept the last of them left it full. Nothing
is done about it later: a queue that was full at the wrong time leaves the last packets of a player in
the buffer of the writer until something new is written.
-/

namespace Realm

namespace Connections

def waiting (t : Connections) (c : ConnectionId) : List Outbound :=
  ((t.find? c).map (·.queue.items)).getD []

/-- The queue of a connection is full, with a packet at its end. -/
def Clogged (t : Connections) (c : ConnectionId) : Prop :=
  ∃ k p, t.find? c = some k ∧ k.queue.isFull = true ∧
    k.queue.items.getLast? = some (.packet p)

/-- A connection is not closed, if it is there. -/
def Open (t : Connections) (c : ConnectionId) : Prop :=
  ∀ k, t.find? c = some k → k.closed = false

end Connections

namespace Simulation

/-- What an event takes out of the queue of a connection: its writer takes items, or goes away with
all of them. -/
def outflow (c : ConnectionId) (s : Simulation) : SimulationEvent → List Outbound
  | .drain client n =>
    if client = c then ((s.lobby.connections.find? c).map (·.yields (.take n))).getD [] else []
  | .dropWriter client => if client = c then s.lobby.connections.waiting c else []
  | _ => []

/-- What went out of the queue of a connection in a run. -/
def gone (c : ConnectionId) (s : Simulation) : List SimulationEvent → List Outbound
  | [] => []
  | e :: rest => s.outflow c e ++ (s.step e).gone c rest

/-- What the queue of a connection has accepted in a run, from the beginning of which it was empty:
what went out of it and what is left. -/
def accepted (c : ConnectionId) (s : Simulation) (events : List SimulationEvent) : List Outbound :=
  s.gone c events ++ (s.run events).lobby.connections.waiting c

end Simulation

variable {rules : GameRules} {s : Simulation} {c : ConnectionId} {t t' : Connections}

/-! ## One step -/

namespace Connections

theorem waiting_of_find? {k : Connection} (h : t.find? c = some k) :
    t.waiting c = k.queue.items := by
  rw [waiting, h]
  rfl

theorem waiting_of_none (h : t.find? c = none) : t.waiting c = [] := by
  rw [waiting, h]
  rfl

/-- Between two tables the queue of an open connection is fed. -/
theorem Passes.exists_new (h : Passes c t t') (hopen : t'.Open c) : t.Open c ∧
    ∃ new, t'.waiting c = t.waiting c ++ new ∧ (new = [] ∨ new.getLast? = some .flush ∨
      ∃ k, t'.find? c = some k ∧ k.queue.isFull = true) := by
  unfold Passes at h
  cases hk : t.find? c with
  | none =>
      have hk' : t'.find? c = none := by
        rw [hk] at h
        generalize t'.find? c = after at h
        cases h
        rfl
      refine ⟨fun k hfound => absurd (hk.symm.trans hfound) nofun, [], ?_, .inl rfl⟩
      rw [waiting_of_none hk, waiting_of_none hk', List.append_nil]
  | some k =>
      obtain ⟨k', hk', hpasses⟩ : ∃ k', t'.find? c = some k' ∧ k.Passes k' := by
        rw [hk] at h
        generalize t'.find? c = after at h
        cases h with
        | some hpasses => exact ⟨_, rfl, hpasses⟩
      obtain ⟨hbefore, new, hfeeds⟩ := hpasses (hopen k' hk')
      refine ⟨fun k₀ hfound => Option.some.inj (hk.symm.trans hfound) ▸ hbefore, new, ?_, ?_⟩
      · rw [waiting_of_find? hk, waiting_of_find? hk', hfeeds.items_eq]
      · exact hfeeds.ends.imp_right (.imp_right fun hfull => ⟨k', hk', hfull⟩)

/-- A connection is open if something that leaves it as open as it was leaves it open. -/
theorem open_of_modify {client : ConnectionId} {f : Connection → Connection}
    (hlabel : ∀ k, (f k).label = k.label) (hopen : (t.modify client f).Open c) : t.Open c := by
  have hid : ∀ k, (f k).id = k.id := fun k => congrArg Prod.fst (hlabel k)
  have hfound := find?_modify (t := t) (fun k _ => hid k : ∀ k, k.id = client → (f k).id = k.id) c
  intro k hk
  by_cases hc : c = client
  · subst hc
    rw [if_pos rfl, hk] at hfound
    have hclosed : (f k).closed = k.closed := congrArg Prod.snd (hlabel k)
    exact hclosed.symm.trans (hopen (f k) hfound)
  · rw [if_neg hc] at hfound
    exact hopen k (hfound.trans hk)

/-- Something lets out the first items of the queue of a connection. -/
theorem outflow_append_waiting (t : Connections) (c : ConnectionId) {client : ConnectionId}
    {f : Connection → Connection} {out : Connection → List Outbound} (hid : ∀ k, (f k).id = k.id)
    (hitems : ∀ k, out k ++ (f k).queue.items = k.queue.items) :
    (if client = c then ((t.find? c).map out).getD [] else []) ++ (t.modify client f).waiting c =
      t.waiting c := by
  have hfound := find?_modify (t := t) (fun k _ => hid k : ∀ k, k.id = client → (f k).id = k.id) c
  by_cases hc : client = c
  · subst hc
    rw [if_pos rfl] at hfound ⊢
    cases hk : t.find? client with
    | none =>
        rw [hk] at hfound
        rw [waiting_of_none hk, waiting_of_none hfound]
        rfl
    | some k =>
        rw [hk] at hfound
        rw [waiting_of_find? hk, waiting_of_find? hfound]
        exact hitems k
  · rw [if_neg fun h => hc h.symm] at hfound
    rw [if_neg hc, waiting, waiting, hfound]
    rfl

end Connections

/-- A deed at most feeds or closes a connection. -/
theorem Deed.passes_lobby (d : Deed) (l : Lobby) (c : ConnectionId) :
    l.connections.Passes c (d.lobby l).connections := by
  cases d with
  | reap h client => exact l.passes_terminate client c
  | obey h client command =>
      cases command with
      | logout => exact (l.takeCommand client).2.passes_terminate client c
      | _ => exact .refl c _
  | advance h position => exact .refl c _
  | appear h => exact .refl c _
  | drain h client => exact l.passes_drainEvents client c

theorem Deed.Course.passes {stage : Stage GameComponent Lobby} {ds : List Deed}
    (h : Deed.Course stage ds) (hr : Ready stage) (c : ConnectionId) :
    stage.shared.connections.Passes c (Deed.performAll ds stage).shared.connections := by
  induction ds generalizing stage with
  | nil => exact .refl c _
  | cons d ds ih =>
      have hdone := h.1.done hr
      have hfirst := d.passes_lobby stage.shared c
      rw [← hdone.shared_eq] at hfirst
      exact hfirst.trans (ih h.2 hdone.ready)

namespace Simulation

theorem passes_join (s : Simulation) (client c : ConnectionId) (account : Account) :
    s.lobby.connections.Passes c (s.join client account).lobby.connections := by
  unfold Simulation.join
  split
  · exact .refl c _
  · exact .refl c _
  · split
    · exact .modify (fun k _ => congrArg Prod.fst (k.label_dismiss _)) fun k _ => k.passes_dismiss _
    · exact .modify (fun k _ => congrArg Prod.fst k.label_close) fun k _ => k.passes_close
    · exact .modify (t := s.lobby.connections)
        (fun k _ => congrArg Prod.fst (Session.label_send k _)) fun k _ => Session.passes_send k _

theorem Regular.passes_tick (h : s.Regular rules) (delta : Duration) (c : ConnectionId) :
    s.lobby.connections.Passes c (s.tick delta).2.lobby.connections := by
  have ht := h.ticks delta
  rw [ht.lobby_eq]
  exact ht.course.passes ht.ready c

/-- What a writer takes was in front of what then waits for it. -/
theorem outflow_drain (s : Simulation) (client c : ConnectionId) (n : Option Nat) :
    s.outflow c (.drain client n) ++ (s.step (.drain client n)).lobby.connections.waiting c =
      s.lobby.connections.waiting c :=
  s.lobby.connections.outflow_append_waiting c (fun k => congrArg Prod.fst (k.label_drain n))
    fun k => (k.yields_append_items (.take n)).trans (List.append_nil _)

/-- A writer that goes away takes all that waits for it. -/
theorem outflow_dropWriter (s : Simulation) (client c : ConnectionId) :
    s.outflow c (.dropWriter client) ++ (s.step (.dropWriter client)).lobby.connections.waiting c =
      s.lobby.connections.waiting c :=
  s.lobby.connections.outflow_append_waiting c (f := Connection.dropWriter) (fun _ => rfl)
    fun _ => List.append_nil _

structure Feeds (c : ConnectionId) (s s' : Simulation) (outflow new : List Outbound) : Prop where
  items_eq : outflow ++ s'.lobby.connections.waiting c = s.lobby.connections.waiting c ++ new
  ends : new = [] ∨ outflow = [] ∧ (new.getLast? = some .flush ∨
    ∃ k, s'.lobby.connections.find? c = some k ∧ k.queue.isFull = true)

theorem Regular.feeds_step (h : s.Regular rules) (e : SimulationEvent)
    (hopen : (s.step e).lobby.connections.Open c) :
    s.lobby.connections.Open c ∧ ∃ new, s.Feeds c (s.step e) (s.outflow c e) new := by
  have hpasses : s.lobby.connections.Passes c (s.step e).lobby.connections →
      s.outflow c e = [] →
      s.lobby.connections.Open c ∧ ∃ new, s.Feeds c (s.step e) (s.outflow c e) new := by
    intro hpasses hnone
    obtain ⟨hbefore, new, hitems, hends⟩ := hpasses.exists_new hopen
    rw [hnone]
    exact ⟨hbefore, new, hitems, hends.imp_right fun hends => ⟨rfl, hends⟩⟩
  have hclose : ∀ client, (s.lobby.connections).Passes c
      (s.lobby.connections.modify client Connection.close) := fun client =>
    .modify (fun k _ => congrArg Prod.fst k.label_close) fun k _ => k.passes_close
  cases e with
  | register address size =>
      have hfound := s.lobby.connections.find?_register address size c
      cases hk : s.lobby.connections.find? c with
      | some k =>
          rw [hk, Option.some_or] at hfound
          exact hpasses (.of_eq (hfound.trans hk.symm)) rfl
      | none =>
          rw [hk, Option.none_or] at hfound
          have hempty : (s.step (.register address size)).lobby.connections.waiting c = [] := by
            show ((s.lobby.connections.register address size).2).waiting c = []
            rw [Connections.waiting, hfound]
            split <;> rfl
          refine ⟨fun k h => absurd (hk.symm.trans h) nofun, [], ?_, .inl rfl⟩
          rw [hempty, Connections.waiting_of_none hk]
          rfl
  | remove client =>
      refine hpasses ?_ rfl
      show s.lobby.connections.Passes c (s.lobby.connections.remove client).2
      unfold Connections.remove
      split
      · exact .refl c _
      · exact hclose client
  | close client => exact hpasses (hclose client) rfl
  | drain client n =>
      exact ⟨Connections.open_of_modify (fun k => k.label_drain n) hopen, [],
        (s.outflow_drain client c n).trans (List.append_nil _).symm, .inl rfl⟩
  | dropWriter client =>
      exact ⟨Connections.open_of_modify (f := Connection.dropWriter) (fun _ => rfl) hopen, [],
        (s.outflow_dropWriter client c).trans (List.append_nil _).symm, .inl rfl⟩
  | terminate client => exact hpasses (s.lobby.passes_terminate client c) rfl
  | mail client payload =>
      cases payload with
      | authenticated account => exact hpasses (s.passes_join client c account) rfl
      | command command => exact hpasses (.refl c _) rfl
  | tick delta => exact hpasses (h.passes_tick delta c) rfl

/-! ## A run -/

theorem gone_append (c : ConnectionId) (s : Simulation) (events rest : List SimulationEvent) :
    s.gone c (events ++ rest) = s.gone c events ++ (s.run events).gone c rest := by
  induction events generalizing s with
  | nil => rfl
  | cons e events ih =>
      rw [List.cons_append, gone, ih, gone, List.append_assoc]
      rfl

/-- What is accepted at one more event is what the event puts in. -/
theorem Feeds.accepted_eq {before : List SimulationEvent} {e : SimulationEvent}
    {new : List Outbound} (h : (s.run before).Feeds c ((s.run before).step e)
      ((s.run before).outflow c e) new) :
    s.accepted c (before ++ [e]) = s.accepted c before ++ new := by
  have hlast : (s.run before).gone c [e] = (s.run before).outflow c e := List.append_nil _
  have hrun : s.run (before ++ [e]) = (s.run before).step e := s.run_append before [e]
  rw [accepted, gone_append, hlast, hrun, List.append_assoc, h.items_eq, accepted,
    List.append_assoc]

/-- If the items that were accepted end with a packet, the queue was full behind it when it was
accepted. -/
theorem Regular.exists_clogged (h : s.Regular rules) {events : List SimulationEvent}
    (hempty : s.lobby.connections.waiting c = []) (hopen : (s.run events).lobby.connections.Open c)
    {p : Wire.Packet} (hlast : (s.accepted c events).getLast? = some (.packet p)) :
    ∃ before e after, events = before ++ e :: after ∧
      (s.run (before ++ [e])).lobby.connections.Clogged c ∧
      s.accepted c events = s.accepted c (before ++ [e]) := by
  induction events using List.reverseRecOn with
  | nil =>
      have hnone : s.accepted c [] = [] := hempty
      rw [hnone] at hlast
      cases hlast
  | append_singleton before e ih =>
      have hrun : s.run (before ++ [e]) = (s.run before).step e := s.run_append before [e]
      rw [hrun] at hopen
      obtain ⟨hbefore, new, hfeeds⟩ := (h.run before).feeds_step e hopen
      have haccepted := hfeeds.accepted_eq
      rcases List.eq_nil_or_concat new with rfl | ⟨front, item, hnew⟩
      · rw [List.append_nil] at haccepted
        rw [haccepted] at hlast ⊢
        obtain ⟨front, e', after, rfl, hclogged, hsame⟩ := ih hbefore hlast
        exact ⟨front, e', after ++ [e], by simp, hclogged, hsame⟩
      · have hitem : new.getLast? = some item := by
          rw [hnew, List.concat_eq_append, List.getLast?_concat]
        have hpacket : new.getLast? = some (.packet p) := by
          rw [haccepted, List.getLast?_append, hitem, Option.some_or] at hlast
          exact hitem.trans hlast
        rcases hfeeds.ends with rfl | ⟨hout, hflush | ⟨k, hk, hfull⟩⟩
        · cases hitem
        · cases hflush.symm.trans hpacket
        · refine ⟨before, e, [], rfl, ⟨k, p, hrun ▸ hk, hfull, ?_⟩, rfl⟩
          have hitems := hfeeds.items_eq
          rw [hout, List.nil_append, Connections.waiting_of_find? hk] at hitems
          rw [hitems, List.getLast?_append, hpacket, Option.some_or]

/-- How packets and pushes stand in the queue of a connection that is open after a run. -/
structure Pushes (c : ConnectionId) (s : Simulation) (events : List SimulationEvent) : Prop where
  /-- What an event makes the queue accept ends with a flush, or else it leaves the queue full. -/
  step : ∀ before e after k, events = before ++ e :: after →
    (s.run (before ++ [e])).lobby.connections.find? c = some k → k.closed = false →
    ∃ new, s.accepted c (before ++ [e]) = s.accepted c before ++ new ∧
      (new = [] ∨ new.getLast? = some .flush ∨ k.queue.isFull = true)
  /-- So some packet lacks a push exactly if the queue was full behind the last packet when it was
  accepted, and has accepted nothing since. -/
  unpushed_iff : ∀ k, (s.run events).lobby.connections.find? c = some k → k.closed = false →
    (¬ Outbound.Pushed (s.accepted c events) ↔ ∃ before e after, events = before ++ e :: after ∧
      (s.run (before ++ [e])).lobby.connections.Clogged c ∧
      s.accepted c events = s.accepted c (before ++ [e]))
  /-- While every event leaves a place in the queue, no packet lacks a push. -/
  pushed_of_room : (s.run events).lobby.connections.Open c →
    (∀ before e after k, events = before ++ e :: after →
      (s.run (before ++ [e])).lobby.connections.find? c = some k → k.queue.isFull = false) →
    Outbound.Pushed (s.accepted c events)

/-- A clogged queue has a packet without a push. -/
theorem not_pushed_of_clogged {events : List SimulationEvent}
    (h : (s.run events).lobby.connections.Clogged c) : ¬ Outbound.Pushed (s.accepted c events) := by
  obtain ⟨k, p, hk, -, hlast⟩ := h
  intro hpushed
  refine Outbound.pushed_iff.mp hpushed p ?_
  rw [accepted, Connections.waiting_of_find? hk, List.getLast?_append, hlast, Option.some_or]

theorem Regular.clogged_of_not_pushed (h : s.Regular rules) {events : List SimulationEvent}
    (hempty : s.lobby.connections.waiting c = []) (hopen : (s.run events).lobby.connections.Open c)
    (hpushed : ¬ Outbound.Pushed (s.accepted c events)) :
    ∃ before e after, events = before ++ e :: after ∧
      (s.run (before ++ [e])).lobby.connections.Clogged c ∧
      s.accepted c events = s.accepted c (before ++ [e]) := by
  rw [Outbound.pushed_iff] at hpushed
  push Not at hpushed
  obtain ⟨p, hlast⟩ := hpushed
  exact h.exists_clogged hempty hopen hlast

/-- Whatever reached a new simulation, packets are followed by a push unless the queue had no place
for it. -/
theorem pushes_run (setup : SimulationSetup) (events : List SimulationEvent) (c : ConnectionId) :
    (Simulation.new setup .empty).Pushes c events := by
  let start := Simulation.new setup .empty
  have hregular := regular_new setup
  have hempty : start.lobby.connections.waiting c = [] := rfl
  have hopen : ∀ {t : Connections} {k : Connection}, t.find? c = some k → k.closed = false →
      t.Open c := fun hk hc k' hk' => Option.some.inj (hk.symm.trans hk') ▸ hc
  refine ⟨?_, ?_, ?_⟩
  · rintro before e after k rfl hk hclosed
    have hrun : start.run (before ++ [e]) = (start.run before).step e := start.run_append before [e]
    have hk' : ((start.run before).step e).lobby.connections.find? c = some k := hrun ▸ hk
    obtain ⟨-, new, hfeeds⟩ := (hregular.run before).feeds_step e (hopen hk' hclosed)
    refine ⟨new, hfeeds.accepted_eq, ?_⟩
    rcases hfeeds.ends with hnone | ⟨-, hflush | ⟨k', hfound, hfull⟩⟩
    · exact .inl hnone
    · exact .inr (.inl hflush)
    · obtain rfl : k' = k := Option.some.inj (hfound.symm.trans hk')
      exact .inr (.inr hfull)
  · intro k hk hclosed
    constructor
    · exact hregular.clogged_of_not_pushed hempty (hopen hk hclosed)
    · rintro ⟨before, e, after, -, hclogged, hsame⟩
      rw [hsame]
      exact not_pushed_of_clogged hclogged
  · intro hopen hroom
    by_contra hpushed
    obtain ⟨before, e, after, rfl, ⟨k, p, hk, hfull, -⟩, -⟩ :=
      hregular.clogged_of_not_pushed hempty hopen hpushed
    rw [hroom before e after k rfl hk] at hfull
    cases hfull

/-- Two answers fill a queue of two places, and there is no place left to ask for a push. Later ticks
write nothing and ask for nothing. -/
theorem unpushed_of_full :
    let setup : SimulationSetup := ⟨16, ⟨8, ⟨100⟩⟩, ⟨64, 256⟩⟩
    let start := Simulation.new setup .empty
    let events : List SimulationEvent :=
      [.register (.v4 [127, 0, 0, 1] 4000) 2, .mail 1 (.authenticated ⟨⟨1⟩, "ada", ""⟩),
        .drain 1 none, .mail 1 (.command (.ping 1)), .mail 1 (.command (.ping 2)), .tick ⟨100⟩,
        .drain 1 none, .tick ⟨100⟩, .tick ⟨100⟩]
    ((start.run events).lobby.session? 1).isSome = true ∧
      (start.run events).lobby.connections.isClosed 1 = false ∧
      start.accepted 1 events = [.packet (Event.loginAccepted ⟨0, 0⟩).toPacket, .flush,
        .packet (Event.pong 1).toPacket, .packet (Event.pong 2).toPacket] ∧
      (start.run events).lobby.connections.waiting 1 = [] ∧
      ¬ Outbound.Pushed (start.accepted 1 events) := by
  intro setup start events
  have haccepted : start.accepted 1 events = [.packet (Event.loginAccepted ⟨0, 0⟩).toPacket, .flush,
      .packet (Event.pong 1).toPacket, .packet (Event.pong 2).toPacket] := by
    decide +kernel
  refine ⟨by decide +kernel, by decide +kernel, haccepted, by decide +kernel, fun hpushed => ?_⟩
  rw [haccepted] at hpushed
  exact Outbound.pushed_iff.mp hpushed _ rfl

end Simulation

end Realm
