import Realm.Proofs.Session.Events
import Realm.Proofs.Simulation.Obedience

/-!
# Announcements have one order

Deeds announce chat lines and movements to everybody, and answer pings. Main statement: what a
session takes of the announcements is, in order, what was announced while it had room; an answer
goes to the session that asked, in the order of the questions. Listing the sessions in another order
makes no difference.
-/

namespace Realm

/-- Whether an event is for everybody. -/
def Event.isAnnouncement : Event → Bool
  | .chatRelay _ _ | .entityMoved _ _ _ => true
  | _ => false

/-- The nonce that an event answers. -/
def Event.answered? : Event → Option UInt32
  | .pong nonce => some nonce
  | _ => none

/-- The nonce that a command asks about. -/
def Command.asked? : Command → Option UInt32
  | .ping nonce => some nonce
  | _ => none

def Deed.announcement : Deed → Option Event
  | .obey h _ (.chat text) => some (.chatRelay h text)
  | .advance h p => some (.entityMoved h p.x p.y)
  | .appear h => some (.entityMoved h .zero .zero)
  | _ => none

def Deed.eventFor (c : ConnectionId) : Deed → Option Event
  | .obey _ client (.ping nonce) => if client = c then some (.pong nonce) else none
  | d => d.announcement

/-- What a deed does to the lobby when the sessions are told in some order. -/
def Deed.lobbyTelling (order : List ConnectionId) : Deed → Lobby → Lobby
  | .obey h c (.chat text), l => (l.takeCommand c).2.tell order (.chatRelay h text)
  | .advance h p, l => l.tell order (.entityMoved h p.x p.y)
  | .appear h, l => l.tell order (.entityMoved h .zero .zero)
  | d, l => d.lobby l

namespace Scene

def admits (c : ConnectionId) (p : Scene) : Bool := (p.lobby.session? c).any Session.hasRoom

def heard (c : ConnectionId) (p : Scene) : Option Event :=
  if p.admits c then p.deed.eventFor c else none

end Scene

namespace Simulation

def announcements (rules : GameRules) (s : Simulation) (events : List SimulationEvent) :
    List Event := (s.scenes rules events).filterMap (·.deed.announcement)

/-- What the session of a connection takes in a run. -/
def taken (rules : GameRules) (c : ConnectionId) (s : Simulation) (events : List SimulationEvent) :
    List Event := (s.scenes rules events).filterMap (·.heard c)

end Simulation

variable {rules : GameRules} {s : Simulation} {c : ConnectionId} {p : Scene} {x y : Session}
  {stage : Stage GameComponent Lobby}

/-! ## One deed -/

theorem Deed.eventFor_eq_announcement {d : Deed} {e : Event} (h : d.announcement = some e)
    (c : ConnectionId) : d.eventFor c = some e := by
  cases d with
  | obey entity client command =>
      cases command with
      | ping nonce => cases h
      | _ => exact h
  | _ => exact h

theorem Deed.isAnnouncement_of_announcement {d : Deed} {e : Event} (h : d.announcement = some e) :
    e.isAnnouncement = true := by
  cases d with
  | obey entity client command =>
      cases command with
      | chat text =>
          cases h
          rfl
      | _ => cases h
  | advance entity position =>
      cases h
      rfl
  | appear entity =>
      cases h
      rfl
  | _ => cases h

theorem Deed.eventFor_cases {d : Deed} {e : Event} (h : d.eventFor c = some e) :
    d.announcement = some e ∨ ∃ entity nonce, d = .obey entity c (.ping nonce) ∧ e = .pong nonce := by
  cases d with
  | obey entity client command =>
      cases command with
      | ping nonce =>
          obtain ⟨rfl, heq⟩ := Option.ite_none_right_eq_some.mp h
          exact .inr ⟨entity, nonce, rfl, (Option.some.inj heq).symm⟩
      | _ => exact .inl h
  | _ => exact .inl h

/-- An answered command puts one event behind those of a session, if there is one for it and the
session takes it. -/
theorem Deed.items_answer {l : Lobby} (h : Handle) (client : ConnectionId) (command : Command)
    (hx : l.session? c = some x) (hy : (Deed.answer h client command l).session? c = some y) :
    y.events.items =
      x.events.items ++ if x.hasRoom then ((Deed.obey h client command).eventFor c).toList else [] := by
  have hsame : (Deed.obey h client command).eventFor c = none → l.session? c = some y →
      y.events.items = x.events.items ++
        if x.hasRoom then ((Deed.obey h client command).eventFor c).toList else [] := by
    intro hnone hy
    obtain rfl : x = y := Option.some.inj (hx.symm.trans hy)
    rw [hnone]
    simp
  cases command with
  | chat text =>
      have htold : (l.broadcast (.chatRelay h text)).session? c = some y := hy
      exact Lobby.items_broadcast hx htold
  | ping nonce =>
      have htold : (l.queueEvent client (.pong nonce)).2.session? c = some y := hy
      rw [l.session?_queueEvent] at htold
      by_cases hc : client = c
      · subst hc
        rw [if_pos rfl, hx] at htold
        obtain rfl := Option.some.inj htold
        have hmine : (Deed.obey h client (.ping nonce)).eventFor client = some (.pong nonce) :=
          if_pos rfl
        rw [hmine]
        exact x.items_queueEvent _
      · rw [if_neg fun heq => hc heq.symm] at htold
        exact hsame (if_neg hc) htold
  | logout =>
      have hended : (l.endSession client).session? c = some y := hy
      rw [l.session?_endSession] at hended
      exact hsame rfl (Option.ite_none_left_eq_some.mp hended).2
  | move dx dy => exact hsame rfl hy
  | login username password => exact hsame rfl hy

/-- What a deed does to the events of a session that stays: one may come in at the end, or some go
out at the front to the writer. -/
theorem Scene.Proper.items_eq (hp : p.Proper) (hx : p.lobby.session? c = some x)
    (hy : p.after.shared.session? c = some y) :
    ∃ gone, x.events.items ++ (p.heard c).toList = gone ++ y.events.items ∧
      (gone ≠ [] → ∃ h, p.deed = .drain h c) := by
  have hshared : p.after.shared = p.deed.lobby p.lobby := hp.done.shared_eq
  have hheard : (p.heard c).toList = if x.hasRoom then (p.deed.eventFor c).toList else [] := by
    have hadmits : p.admits c = x.hasRoom := by
      rw [Scene.admits, hx]
      rfl
    rw [Scene.heard, hadmits]
    split <;> rfl
  have hgrown : y.events.items =
      x.events.items ++ (if x.hasRoom then (p.deed.eventFor c).toList else []) →
      ∃ gone, x.events.items ++ (p.heard c).toList = gone ++ y.events.items ∧
        (gone ≠ [] → ∃ h, p.deed = .drain h c) := by
    intro heq
    rw [hheard]
    exact ⟨[], heq.symm, fun h => absurd rfl h⟩
  rw [hshared] at hy
  obtain ⟨stage, d⟩ := p
  change stage.shared.session? c = some x at hx
  cases d with
  | reap h client =>
      have hended : (stage.shared.endSession client).session? c = some y := hy
      rw [stage.shared.session?_endSession, hx] at hended
      obtain rfl := Option.some.inj (Option.ite_none_left_eq_some.mp hended).2
      exact hgrown (by simp [Deed.eventFor, Deed.announcement])
  | obey h client command =>
      obtain ⟨x', hx', hevents, hroom⟩ := Lobby.exists_session_takeCommand client hx
      have hanswer := Deed.items_answer h client command hx' hy
      rw [hevents, hroom] at hanswer
      exact hgrown hanswer
  | advance h position =>
      have htold : (stage.shared.broadcast (.entityMoved h position.x position.y)).session? c =
          some y := hy
      exact hgrown (Lobby.items_broadcast hx htold)
  | appear h =>
      have htold : (stage.shared.broadcast (.entityMoved h .zero .zero)).session? c = some y := hy
      exact hgrown (Lobby.items_broadcast hx htold)
  | drain h client =>
      have hdrained : (stage.shared.drainEvents client).session? c = some y := hy
      rcases stage.shared.session?_drainEvents client c with heq | ⟨rfl, z, left, hz, hleft, heq⟩
      · rw [heq, hx] at hdrained
        obtain rfl := Option.some.inj hdrained
        exact hgrown (by simp [Deed.eventFor, Deed.announcement])
      · rw [hz] at hx
        obtain rfl := Option.some.inj hx
        rw [heq] at hdrained
        obtain rfl := Option.some.inj hdrained
        obtain ⟨gone, hgone⟩ := hleft
        refine ⟨gone, ?_, fun _ => ⟨h, rfl⟩⟩
        rw [hheard, hgone]
        simp [Deed.eventFor, Deed.announcement]

/-- Nobody leaves at a deed that has an event for somebody. -/
theorem Deed.roll_lobby_of_eventFor {d : Deed} {e : Event} (l : Lobby) (h : d.eventFor c = some e) :
    (d.lobby l).roll = l.roll := by
  cases d with
  | reap entity client => cases h
  | obey entity client command =>
      have htaken := l.roll_takeCommand client
      cases command with
      | chat text => exact ((l.takeCommand client).2.roll_broadcast _).trans htaken
      | ping nonce => exact ((l.takeCommand client).2.roll_queueEvent client _).trans htaken
      | _ => cases h
  | advance entity position => exact l.roll_broadcast _
  | appear entity => exact l.roll_broadcast _
  | drain entity client => cases h

theorem Scene.Proper.heard_of_gone (hp : p.Proper) (hgone : p.after.shared.session? c = none) :
    p.heard c = none := by
  by_contra hheard
  obtain ⟨e, he⟩ := Option.ne_none_iff_exists'.mp hheard
  obtain ⟨hadmits, hfor⟩ := Option.ite_none_right_eq_some.mp he
  obtain ⟨x, hx, -⟩ := (Option.any_eq_true _ _).mp hadmits
  obtain ⟨hm, rfl⟩ := Peopled.mem_roll hx
  have hroll : p.after.shared.roll = p.lobby.roll :=
    (congrArg Lobby.roll hp.done.shared_eq).trans (p.deed.roll_lobby_of_eventFor p.lobby hfor)
  obtain ⟨y, hy, -⟩ := hp.done.ready.session_of_bond (hroll ▸ hm : x.bond ∈ _)
  have hboth : (none : Option Session) = some y := hgone.symm.trans hy
  cases hboth

/-- Of what a session takes the announcements are those of the deeds it has room at. -/
theorem Scene.filter_heard (c : ConnectionId) (p : Scene) :
    (p.heard c).filter Event.isAnnouncement = if p.admits c then p.deed.announcement else none := by
  unfold Scene.heard
  split
  · cases hfor : p.deed.eventFor c with
    | none =>
        cases hall : p.deed.announcement with
        | none => rfl
        | some e => exact absurd ((Deed.eventFor_eq_announcement hall c).symm.trans hfor) nofun
    | some e =>
        rcases Deed.eventFor_cases hfor with hall | ⟨h, nonce, hd, rfl⟩
        · rw [hall, Option.filter_some, if_pos (Deed.isAnnouncement_of_announcement hall)]
        · rw [hd]
          rfl
  · rfl

theorem Scene.commandOf_of_answered {nonce : UInt32}
    (h : (p.heard c).bind Event.answered? = some nonce) :
    p.deed.commandOf c = some (.ping nonce) := by
  obtain ⟨e, he, hanswered⟩ := Option.bind_eq_some_iff.mp h
  obtain ⟨-, hfor⟩ := Option.ite_none_right_eq_some.mp he
  rcases Deed.eventFor_cases hfor with hall | ⟨entity, asked, hd, rfl⟩
  · have hkind := Deed.isAnnouncement_of_announcement hall
    cases e with
    | pong nonce => cases hkind
    | _ => cases hanswered
  · obtain rfl : asked = nonce := Option.some.inj hanswered
    rw [hd]
    exact if_pos rfl

theorem Scene.Proper.relayed (hp : p.Proper) {h : Handle} {text : String}
    (hall : p.deed.announcement = some (.chatRelay h text)) :
    ∃ c x rest, p.deed = .obey h c (.chat text) ∧ p.lobby.session? c = some x ∧ x.entity = h ∧
      x.commands.items = .chat text :: rest := by
  have hobeyed : ∃ c, p.deed = .obey h c (.chat text) := by
    obtain ⟨stage, d⟩ := p
    cases d with
    | obey entity client command =>
        cases command with
        | chat line =>
            cases hall
            exact ⟨client, rfl⟩
        | _ => cases hall
    | _ => cases hall
  obtain ⟨c, hd⟩ := hobeyed
  obtain ⟨x, rest, hx, hentity, -, hitems⟩ := (hp.attributed hd).source
  exact ⟨c, x, rest, hd, hx, hentity, hitems⟩

theorem Scene.Proper.answered (hp : p.Proper) {nonce : UInt32}
    (hpong : p.heard c = some (.pong nonce)) :
    ∃ h x rest, p.deed = .obey h c (.ping nonce) ∧ p.lobby.session? c = some x ∧
      x.commands.items = .ping nonce :: rest := by
  obtain ⟨-, hfor⟩ := Option.ite_none_right_eq_some.mp hpong
  rcases Deed.eventFor_cases hfor with hall | ⟨h, asked, hd, heq⟩
  · cases Deed.isAnnouncement_of_announcement hall
  · obtain rfl := Event.pong.inj heq
    obtain ⟨x, rest, hx, -, -, hitems⟩ := (hp.attributed hd).source
    exact ⟨h, x, rest, hd, hx, hitems⟩

theorem Scene.Proper.lobbyTelling_eq (hp : p.Proper) {order : List ConnectionId}
    (horder : order.Perm (p.lobby.roll.map (·.connection))) :
    p.deed.lobbyTelling order p.lobby = p.after.shared := by
  have hshared : p.after.shared = p.deed.lobby p.lobby := hp.done.shared_eq
  have htell : ∀ {l : Lobby}, l.roll = p.lobby.roll → ∀ e, l.tell order e = l.broadcast e :=
    fun hroll e => Lobby.tell_eq_broadcast (hroll ▸ hp.ready.nodup) (hroll ▸ horder) e
  rw [hshared]
  obtain ⟨stage, d⟩ := p
  cases d with
  | obey h client command =>
      cases command with
      | chat text => exact htell (stage.shared.roll_takeCommand client) _
      | _ => rfl
  | advance h position => exact htell rfl _
  | appear h => exact htell rfl _
  | _ => rfl

/-! ## Deeds and events -/

theorem Deed.Course.items_eq {ds : List Deed} (h : Deed.Course stage ds) (hr : Ready stage)
    (hx : stage.shared.session? c = some x)
    (hy : (Deed.performAll ds stage).shared.session? c = some y) :
    ∃ gone, x.events.items ++ (Deed.scenes stage ds).filterMap (·.heard c) =
      gone ++ y.events.items := by
  induction ds generalizing stage x with
  | nil =>
      obtain rfl : x = y := Option.some.inj (hx.symm.trans hy)
      exact ⟨[], List.append_nil _⟩
  | cons d ds ih =>
      have hproper : (⟨stage, d⟩ : Scene).Proper := ⟨hr, h.1⟩
      have hready := hproper.done.ready
      -- Nobody joins at a deed, so who is there at the end was there all along.
      obtain ⟨hm, hc⟩ := Peopled.mem_roll hy
      obtain ⟨z, hz, -⟩ := hready.session_of_bond (h.2.roll_subset hready hm)
      have hz : (d.perform stage).shared.session? c = some z := hc ▸ hz
      obtain ⟨gone, hfirst, -⟩ := hproper.items_eq hx hz
      obtain ⟨gone', hrest⟩ := ih h.2 hready hz hy
      have hcons : (Deed.scenes stage (d :: ds)).filterMap (·.heard c) =
          ((⟨stage, d⟩ : Scene).heard c).toList ++
            (Deed.scenes (d.perform stage) ds).filterMap (·.heard c) := by
        rw [Deed.scenes, List.filterMap_cons]
        cases (⟨stage, d⟩ : Scene).heard c <;> rfl
      refine ⟨gone ++ gone', ?_⟩
      rw [hcons, ← List.append_assoc, hfirst, List.append_assoc, hrest, List.append_assoc]

namespace Simulation

/-- Between two ticks nothing is queued for a session, and only an end takes events away. -/
theorem items_step {e : SimulationEvent} (hquiet : ∀ delta, e ≠ .tick delta)
    (hx : s.lobby.session? c = some x) (hy : (s.step e).lobby.session? c = some y) :
    y.events.items = x.events.items ∨ e = .terminate c ∧ y.events.items = [] := by
  have hsame : s.lobby.session? c = some y →
      y.events.items = x.events.items ∨ e = .terminate c ∧ y.events.items = [] :=
    fun hy => .inl (Option.some.inj (hx.symm.trans hy) ▸ rfl)
  cases e with
  | register address size => exact hsame hy
  | remove client => exact hsame hy
  | close client => exact hsame hy
  | drain client items => exact hsame hy
  | dropWriter client => exact hsame hy
  | terminate client =>
      have hended : (s.lobby.terminate client).session? c = some y := hy
      rw [s.lobby.session?_terminate] at hended
      by_cases hc : c = client
      · subst hc
        rw [if_pos rfl, hx] at hended
        obtain rfl := Option.some.inj hended
        rcases x.items_terminate with h | h
        · exact .inl h
        · exact .inr ⟨rfl, h⟩
      · rw [if_neg hc] at hended
        exact hsame hended
  | mail client payload =>
      cases payload with
      | authenticated account =>
          have hjoined : (s.join client account).lobby.session? c = some y := hy
          rcases s.session?_join client c account with heq | ⟨rfl, hnone, -⟩
          · exact hsame (heq ▸ hjoined)
          · rw [hx] at hnone
            cases hnone
      | command command =>
          have hqueued : (s.lobby.queueCommand client command).2.session? c = some y := hy
          rw [s.lobby.session?_queueCommand] at hqueued
          by_cases hc : c = client
          · subst hc
            rw [if_pos rfl, hx] at hqueued
            obtain rfl := Option.some.inj hqueued
            exact .inl (congrArg Bounded.items (x.events_queueCommand command))
          · rw [if_neg hc] at hqueued
            exact hsame hqueued
  | tick delta => exact absurd rfl (hquiet delta)

theorem Regular.items_eq_of_step (h : s.Regular rules) (e : SimulationEvent)
    (hx : s.lobby.session? c = some x) (hy : (s.step e).lobby.session? c = some y) :
    ∃ gone, x.events.items ++ (s.scenesOf rules e).filterMap (·.heard c) =
      gone ++ y.events.items := by
  have hother : (∀ delta, e ≠ .tick delta) → s.scenesOf rules e = [] →
      ∃ gone, x.events.items ++ (s.scenesOf rules e).filterMap (·.heard c) =
        gone ++ y.events.items := by
    intro hquiet hscenes
    rw [hscenes, List.filterMap_nil, List.append_nil]
    rcases items_step hquiet hx hy with heq | ⟨-, heq⟩
    · exact ⟨[], heq.symm⟩
    · exact ⟨x.events.items, by rw [heq, List.append_nil]⟩
  cases e with
  | tick delta =>
      have ht := h.ticks delta
      have hafter : (s.tick delta).2.lobby.session? c = some y := hy
      rw [ht.lobby_eq] at hafter
      exact ht.course.items_eq ht.ready hx hafter
  | _ => exact hother nofun rfl

/-- While a session stays, what it takes stands behind what it had, and only the front goes out. -/
theorem Regular.items_eq_of_run (h : s.Regular rules) {events : List SimulationEvent}
    (hstays : s.Stays c events) (hx : s.lobby.session? c = some x)
    (hy : (s.run events).lobby.session? c = some y) :
    ∃ gone, x.events.items ++ s.taken rules c events = gone ++ y.events.items := by
  induction events generalizing s x with
  | nil =>
      obtain rfl : x = y := Option.some.inj (hx.symm.trans hy)
      exact ⟨[], List.append_nil _⟩
  | cons e events ih =>
      obtain ⟨z, hz⟩ := Option.isSome_iff_exists.mp hstays.tail.isSome
      obtain ⟨gone, hfirst⟩ := h.items_eq_of_step e hx hz
      obtain ⟨gone', hrest⟩ := ih (h.step e) hstays.tail hz hy
      have htaken : s.taken rules c (e :: events) =
          (s.scenesOf rules e).filterMap (·.heard c) ++ (s.step e).taken rules c events :=
        List.filterMap_append
      refine ⟨gone ++ gone', ?_⟩
      rw [htaken, ← List.append_assoc, hfirst, List.append_assoc, hrest, List.append_assoc]

/-! ## A run -/

/-- What is known of the events that are queued in a run. -/
structure Announces (rules : GameRules) (s : Simulation) (events : List SimulationEvent) : Prop where
  /-- Each tick is a sequence of deeds. -/
  ticks : ∀ before delta after, events = before ++ .tick delta :: after →
    (s.run before).Ticks rules delta
  /-- A session that a deed ends takes nothing of it; of one that stays the queue grows by what it
  takes, and only the drain takes events away, at the front. -/
  queue : ∀ p ∈ s.scenes rules events, ∀ c x, p.lobby.session? c = some x →
    p.after.shared.session? c = none ∧ p.heard c = none ∨
      ∃ y gone, p.after.shared.session? c = some y ∧
        x.events.items ++ (p.heard c).toList = gone ++ y.events.items ∧
        (gone ≠ [] → ∃ h, p.deed = .drain h c)
  /-- Nothing else queues events, and only an end takes them away. -/
  between : ∀ before e after c x y, events = before ++ e :: after → (∀ delta, e ≠ .tick delta) →
    (s.run before).lobby.session? c = some x → ((s.run before).step e).lobby.session? c = some y →
    y.events.items = x.events.items ∨ e = .terminate c ∧ y.events.items = []
  /-- So, as long as a session stays, what it takes stands behind what it had. -/
  ledger : ∀ before during after c x y, events = before ++ during ++ after →
    (s.run before).Stays c during → (s.run before).lobby.session? c = some x →
    ((s.run before).run during).lobby.session? c = some y →
    ∃ gone, x.events.items ++ (s.run before).taken rules c during = gone ++ y.events.items
  /-- The announcements a session takes are those that are made while it has room. -/
  complete : ∀ before during after c, events = before ++ during ++ after →
    ((s.run before).taken rules c during).filter Event.isAnnouncement =
      (((s.run before).scenes rules during).filter (·.admits c)).filterMap (·.deed.announcement)
  /-- All sessions take announcements in the one order in which they are made. -/
  ordered : ∀ c, ((s.taken rules c events).filter Event.isAnnouncement).Sublist
    (s.announcements rules events)
  /-- A chat line names the entity of the session it was taken from. -/
  relayed : ∀ p ∈ s.scenes rules events, ∀ h text, p.deed.announcement = some (.chatRelay h text) →
    ∃ c x rest, p.deed = .obey h c (.chat text) ∧ p.lobby.session? c = some x ∧ x.entity = h ∧
      x.commands.items = .chat text :: rest
  /-- An answer is taken by the session whose first command is the question. -/
  answered : ∀ p ∈ s.scenes rules events, ∀ c nonce, p.heard c = some (.pong nonce) →
    ∃ h x rest, p.deed = .obey h c (.ping nonce) ∧ p.lobby.session? c = some x ∧
      x.commands.items = .ping nonce :: rest
  /-- Answers come in the order of the questions. -/
  inTurn : ∀ c, ((s.taken rules c events).filterMap Event.answered?).Sublist
    ((s.applied rules c events).filterMap Command.asked?)
  /-- Telling the sessions in another order comes to the same. -/
  unordered : ∀ p ∈ s.scenes rules events, ∀ order : List ConnectionId,
    order.Perm (p.lobby.roll.map (·.connection)) →
      p.deed.lobbyTelling order p.lobby = p.after.shared

theorem filter_taken (rules : GameRules) (s : Simulation) (c : ConnectionId)
    (events : List SimulationEvent) : (s.taken rules c events).filter Event.isAnnouncement =
      ((s.scenes rules events).filter (·.admits c)).filterMap (·.deed.announcement) := by
  rw [taken, List.filter_filterMap, List.filterMap_filter]
  exact List.filterMap_congr fun p _ => p.filter_heard c

theorem answered_sublist (rules : GameRules) (s : Simulation) (c : ConnectionId)
    (events : List SimulationEvent) :
    ((s.taken rules c events).filterMap Event.answered?).Sublist
      ((s.applied rules c events).filterMap Command.asked?) := by
  rw [taken, applied, List.filterMap_filterMap, List.filterMap_filterMap]
  induction s.scenes rules events with
  | nil => exact .slnil
  | cons p ps ih =>
      rw [List.filterMap_cons, List.filterMap_cons]
      cases h : (p.heard c).bind Event.answered? with
      | none =>
          cases (p.deed.commandOf c).bind Command.asked? with
          | none => exact ih
          | some nonce => exact ih.cons nonce
      | some nonce =>
          rw [Scene.commandOf_of_answered h]
          exact ih.cons_cons nonce

/-- Whatever reaches a new simulation: there is one order of chat lines and movements, every session
takes them in this order and misses none while it has room, and answers go where they belong. -/
theorem announces_run (setup : SimulationSetup) (events : List SimulationEvent) :
    (Simulation.new setup .empty).Announces setup.rules events := by
  have hregular : ∀ before, ((Simulation.new setup .empty).run before).Regular setup.rules :=
    (regular_new setup).run
  have hproper : ∀ p ∈ (Simulation.new setup .empty).scenes setup.rules events, p.Proper :=
    fun p hp => (regular_new setup).proper hp
  refine ⟨?_, ?_, ?_, ?_, ?_, ?_, ?_, ?_, ?_, ?_⟩
  · intro before delta after _
    exact (hregular before).ticks delta
  · intro p hp c x hx
    cases hy : p.after.shared.session? c with
    | none => exact .inl ⟨rfl, (hproper p hp).heard_of_gone hy⟩
    | some y =>
        obtain ⟨gone, hgone, hdrain⟩ := (hproper p hp).items_eq hx hy
        exact .inr ⟨y, gone, rfl, hgone, hdrain⟩
  · intro before e after c x y _ hquiet hx hy
    exact items_step hquiet hx hy
  · intro before during after c x y _ hstays hx hy
    exact (hregular before).items_eq_of_run hstays hx hy
  · intro before during after c _
    exact filter_taken setup.rules _ c during
  · intro c
    rw [filter_taken]
    exact List.filter_sublist.filterMap _
  · intro p hp h text hall
    exact (hproper p hp).relayed hall
  · intro p hp c nonce hpong
    exact (hproper p hp).answered hpong
  · exact fun c => answered_sublist setup.rules _ c events
  · intro p hp order horder
    exact (hproper p hp).lobbyTelling_eq horder

/-- Two players have room for one event each: the second chat line is lost to both, and so is the
answer to a ping. -/
example :
    let setup : SimulationSetup := ⟨2, ⟨3, ⟨50⟩⟩, ⟨4, 1⟩⟩
    let start := Simulation.new setup .empty
    let events : List SimulationEvent :=
      [.register (.v4 [127, 0, 0, 1] 4000) 8, .register (.v4 [127, 0, 0, 1] 4001) 8,
        .mail 1 (.authenticated ⟨⟨5⟩, "ada", "x"⟩), .mail 2 (.authenticated ⟨⟨6⟩, "bob", "y"⟩),
        .mail 2 (.command (.chat "hi")), .mail 1 (.command (.chat "ho")),
        .mail 1 (.command (.ping 7)), .tick ⟨50⟩]
    start.announcements setup.rules events = [.chatRelay ⟨0, 0⟩ "ho", .chatRelay ⟨1, 0⟩ "hi"] ∧
      start.taken setup.rules 1 events = [.chatRelay ⟨0, 0⟩ "ho"] ∧
      start.taken setup.rules 2 events = [.chatRelay ⟨0, 0⟩ "ho"] := by
  decide +kernel

end Simulation

end Realm
