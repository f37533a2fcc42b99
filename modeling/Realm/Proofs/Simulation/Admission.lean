import Realm.Proofs.Session.Feed
import Realm.Proofs.Session.Turnover
import Realm.Proofs.Simulation.Isolation

/-!
# Admission is all or nothing

The living entities and the free identities are all identities, each once, so an entity can be
created exactly while there are fewer sessions than the capacity admits. Main statement: whatever
reached a new simulation before, mail about an authenticated client changes nothing, or brings one
entity and one session, or turns the client away and leaves world and sessions as they were.
-/

namespace Realm

variable {rules : GameRules} {capacity : UInt32}

namespace Store

variable {s s' : Store GameComponent} {h h' : Handle} {queue : List Change}

/-! ## The capacity of a store -/

theorem capacity_applyChanges (s : Store GameComponent) (changes : List Change) :
    (s.applyChanges changes).2.capacity = s.capacity := by
  have hone : ∀ (s : Store GameComponent) change,
      (s.applyChange change).2.capacity = s.capacity := by
    intro s change
    cases change <;> (simp only [applyChange]; split <;> rfl)
  induction changes generalizing s with
  | nil => rfl
  | cons change rest ih => exact (ih _).trans (hone s change)

theorem Touches.capacity_eq {f : Slot GameComponent → Slot GameComponent}
    (ht : s.Touches h f s') : s'.capacity = s.capacity := by
  cases ht with
  | spared => rfl
  | destroyed _ _ _ destroys => exact destroys.capacity_eq
  | rewritten rewrites _ _ _ _ => exact rewrites.capacity_eq

/-! ## Creating -/

theorem find?_slotOrFresh (s : Store GameComponent) (h : Handle) :
    s.find? h = (s.slotOrFresh h.id).find? h := by
  cases hslot : s.at? h.id with
  | none =>
      rw [find?, slot?_eq, slotOrFresh, hslot]
      rfl
  | some slot => rw [find?_of_at? hslot, slotOrFresh_of_at? hslot]

/-- Creating an entity brings its record and leaves the other handles alone, those of its identity
included. -/
structure Brings (s : Store GameComponent) (cs : List GameComponent) (h : Handle)
    (s' : Store GameComponent) : Prop where
  fresh : s.find? h = none
  isAlive : s'.isAlive h = true
  find?_eq : s'.find? h = some (.ofComponents h cs)
  isAlive_of_ne : ∀ h', h' ≠ h → s'.isAlive h' = s.isAlive h'
  find?_of_ne : ∀ h', h' ≠ h → s'.find? h' = s.find? h'

theorem Steady.brings {cs : List GameComponent} (hs : s.Steady s.changes.toList)
    (hc : s.Creates cs h s') (ht : s.Takes h.id s') : s.Brings cs h s' := by
  obtain ⟨hidle, hnext⟩ := hs.of_takes ht
  have hcurrent : h = (s.slotOrFresh h.id).current h.id :=
    Slot.eq_current_iff.mpr ⟨rfl, hc.generation_eq⟩
  have hliving : s'.living? h = some (.ofComponents h cs) :=
    (hs.living?_create hc ht h).trans (if_pos rfl)
  have hother : ∀ h' : Handle, h'.id ≠ h.id → s'.at? h'.id = s.at? h'.id :=
    fun h' hid => (hc.at?_eq h'.id).trans (if_neg hid)
  have hsame : ∀ h' : Handle, h'.id = h.id →
      s'.at? h'.id = some ((s.slotOrFresh h.id).await (.ofComponents h cs)) :=
    fun h' hid => (hc.at?_eq h'.id).trans (if_pos hid)
  refine ⟨?_, isAlive_of_living hliving, find?_of_living hliving, ?_, ?_⟩
  · rw [find?_slotOrFresh, Slot.find?_eq_none_iff, hidle]
    exact ⟨fun hshown => hnext (hshown.trans (congrArg some hcurrent)), nofun⟩
  · intro h' hne
    by_cases hid : h'.id = h.id
    · -- Of the identity that is taken only the new handle is alive, before and after.
      have hdead : ∀ {t : Store GameComponent} {slot : Slot GameComponent},
          t.at? h'.id = some slot → slot.current h.id = h → t.isAlive h' ≠ true := by
        intro t slot hslot hcur halive
        obtain ⟨other, hother, hcur'⟩ := isAlive_iff.mp halive
        rw [hslot] at hother
        obtain rfl := Option.some.inj hother
        exact hne (hcur'.trans (hid ▸ hcur))
      have hbefore : s.isAlive h' ≠ true := by
        intro halive
        obtain ⟨slot, hslot, -⟩ := isAlive_iff.mp halive
        rw [slotOrFresh_of_at? (hid ▸ hslot)] at hcurrent
        exact hdead hslot hcurrent.symm halive
      rw [Bool.eq_false_of_not_eq_true hbefore,
        Bool.eq_false_of_not_eq_true (hdead (hsame h' hid) hcurrent.symm)]
    · exact isAlive_congr (hother h' hid)
  · intro h' hne
    by_cases hid : h'.id = h.id
    · have hpending : (s.slotOrFresh h.id).pending = none := Option.map_eq_none_iff.mp hidle
      have hunmatched : Entity.matching h' (some (Entity.ofComponents h cs)) = none :=
        Entity.matching_of_ne fun heq => hne (heq.symm.trans (Entity.handle_ofComponents h cs))
      rw [find?_of_at? (hsame h' hid), find?_slotOrFresh s, hid, Slot.find?, Slot.find?, hpending]
      exact congrArg _ hunmatched
    · rw [find?, find?, slot?_eq, slot?_eq, hother h' hid]

end Store

/-! ## The identities of players -/

namespace Peopled

variable {stage : Stage GameComponent Lobby}

/-- The identities of the players and the free ones are all identities, each once. -/
theorem perm_range (hp : Peopled stage) :
    (stage.shared.roll.map (fun b => b.entity.id.toNat) ++
      stage.store.free.map UInt32.toNat).Perm (List.range stage.store.slots.size) := by
  refine (List.perm_ext_iff_of_nodup ?_ List.nodup_range).mpr fun n => ?_
  · refine List.nodup_append.mpr ⟨?_, ?_, ?_⟩
    · refine List.Nodup.map_on ?_ (hp.nodup.of_map _)
      intro b hb b' hb' heq
      obtain ⟨e, hl, -⟩ := hp.linked b hb
      obtain ⟨e', hl', -⟩ := hp.linked b' hb'
      exact hp.eq_of_entity hb hb' (Store.eq_of_living hl' hl (UInt32.toNat_inj.mp heq))
    · exact hp.steady.free_nodup.map fun _ _ heq => UInt32.toNat_inj.mp heq
    · intro n hn m hm heq
      obtain ⟨b, hb, rfl⟩ := List.mem_map.mp hn
      obtain ⟨id, hid, rfl⟩ := List.mem_map.mp hm
      obtain ⟨e, hl, -⟩ := hp.linked b hb
      have hsame : b.entity.id = id := UInt32.toNat_inj.mp heq
      exact hp.steady.used_of_living hl (hsame ▸ hid)
  · rw [List.mem_append, List.mem_range, List.mem_map, List.mem_map]
    constructor
    · rintro (⟨b, hb, rfl⟩ | ⟨id, hid, rfl⟩)
      · obtain ⟨e, hl, -⟩ := hp.linked b hb
        obtain ⟨slot, hslot, -⟩ := Store.living?_eq_some_iff.mp hl
        exact Store.lt_size_of_at? hslot
      · exact hp.steady.free_lt id hid
    · intro hn
      have hto := hp.steady.toNat_ofNat (Nat.le_of_lt hn)
      obtain ⟨slot, hslot⟩ : ∃ slot, stage.store.at? (UInt32.ofNat n) = some slot :=
        Store.at?_of_lt_size (by omega)
      by_cases hfree : UInt32.ofNat n ∈ stage.store.free
      · exact .inr ⟨_, hfree, hto⟩
      · -- A used identity has a record under its current handle, and that is a player's.
        have hrecord : slot.find? (slot.current (UInt32.ofNat n)) ≠ none := by
          rw [ne_eq, Slot.find?_eq_none_iff]
          rcases (hp.steady.slot _ slot hslot).of_used hfree with hw | ⟨-, hshown⟩
          · exact fun h => h.2 hw
          · exact fun h => h.1 hshown
        obtain ⟨e, he⟩ := Option.ne_none_iff_exists'.mp hrecord
        obtain ⟨b, hb, hentity⟩ := hp.owned (slot.current (UInt32.ofNat n)) e
          (Store.living?_eq_some_iff.mpr ⟨slot, hslot, rfl, he⟩)
        exact .inl ⟨b, hb, by rw [hentity, Slot.id_current, hto]⟩

/-- Creating an entity fails exactly if there are as many players as the capacity admits. -/
theorem create_eq_error_iff (hp : Peopled stage) {cs : List GameComponent} {e : WorldError} :
    stage.store.create cs = .error e ↔
      stage.shared.roll.length = stage.store.capacity.toNat ∧
        e = .capacity stage.store.capacity := by
  have hlength := hp.perm_range.length_eq
  have hle := hp.steady.size_le
  rw [List.length_append, List.length_map, List.length_map, List.length_range] at hlength
  rw [Store.create_eq_error_iff hp.steady.toBounded, ← List.length_eq_zero_iff]
  constructor
  · rintro ⟨hfree, hsize, he⟩
    exact ⟨by omega, he⟩
  · rintro ⟨hfull, he⟩
    exact ⟨by omega, by omega, he⟩

theorem length_roll_le (hp : Peopled stage) :
    stage.shared.roll.length ≤ stage.store.capacity.toNat := by
  have hlength := hp.perm_range.length_eq
  have hle := hp.steady.size_le
  rw [List.length_append, List.length_map, List.length_map, List.length_range] at hlength
  omega

end Peopled

theorem Deed.Course.capacity_eq {stage : Stage GameComponent Lobby} {ds : List Deed}
    (h : Deed.Course stage ds) (hr : Ready stage) :
    (Deed.performAll ds stage).store.capacity = stage.store.capacity := by
  induction ds generalizing stage with
  | nil => rfl
  | cons d ds ih =>
      have hdone := h.1.done hr
      exact (ih h.2 hdone.ready).trans hdone.touches.capacity_eq

namespace Simulation

variable {s s' : Simulation} {client : ConnectionId} {account : Account} {h : Handle}

theorem Regular.capacity_step (hs : s.Regular rules) (e : SimulationEvent) :
    (s.step e).world.store.capacity = s.world.store.capacity := by
  cases e with
  | mail client payload =>
      cases payload with
      | authenticated account =>
          rcases s.join_cases client account with heq | ⟨-, -, -, -, heq | ⟨entity, hcreate⟩⟩
          · exact congrArg (·.world.store.capacity) heq
          · exact congrArg Store.capacity heq
          · exact (Store.creates_of_ok hs.peopled.steady.toBounded hcreate).1.capacity_eq
      | command command => rfl
  | tick delta =>
      have ht := hs.ticks delta
      have happly : s.world.applyChanges.stage.store.capacity = s.world.store.capacity :=
        Store.capacity_applyChanges _ _
      exact (congrArg (·.store.capacity) ht.stage_eq).trans
        ((ht.course.capacity_eq ht.ready).trans happly)
  | _ => rfl

theorem Regular.capacity_run (hs : s.Regular rules) (events : List SimulationEvent) :
    (s.run events).world.store.capacity = s.world.store.capacity := by
  induction events generalizing s with
  | nil => rfl
  | cons e rest ih => exact (ih (hs.step e)).trans (hs.capacity_step e)

/-! ## Admission -/

/-- A client is let in: one entity and one session come to be, and the client is told. -/
structure LetsIn (s : Simulation) (client : ConnectionId) (account : Account) (h : Handle)
    (s' : Simulation) : Prop where
  /-- Nothing was to be found under the handle before. -/
  fresh : s.world.store.find? h = none
  /-- Now the entity is alive. -/
  isAlive : s'.world.store.isAlive h = true
  /-- It is at the default position and linked to the client and the account, and has nothing
  else. -/
  components : ∀ k, s'.world.store.get? h k =
    if k = .transform then some (.transform .origin)
    else if k = .player then some (.player ⟨client, account.id⟩) else none
  /-- Of all other handles none becomes alive or dead, and their records stay. -/
  others : ∀ h', h' ≠ h → s'.world.store.isAlive h' = s.world.store.isAlive h' ∧
    s'.world.store.find? h' = s.world.store.find? h'
  /-- The client has a session that names the entity. -/
  session : s'.lobby.session? client = some (.fresh client account.id h s.limits)
  /-- It is one session more, and no other names the entity. -/
  size_eq : s'.lobby.sessions.size = s.lobby.sessions.size + 1
  named : ∀ c x, s'.lobby.session? c = some x → x.entity = h → c = client
  /-- The writer of the client is offered the answer with that handle, and then a flush. -/
  told : s'.lobby.connections = s.lobby.connections.modify client
    (·.useAll [.send (Event.loginAccepted h).toPacket, .flush])
  /-- Store, sessions and connections are all that changes. -/
  rest : s' = { s with world := (s.world.withStore s'.world.store).withShared s'.lobby }

/-- A client is turned away: it is told so and its connection is closed, and world and sessions stay
as they are. -/
structure TurnsAway (s : Simulation) (client : ConnectionId) (s' : Simulation) : Prop where
  eq : s' = s.modifyLobby (·.modifyConnection client
    (·.useAll [.send (Event.loginRejected "server is full").toPacket, .flush, .close]))
  closed : s'.lobby.connections.isClosed client = true

structure Admission (capacity : UInt32) (s : Simulation) (client : ConnectionId)
    (account : Account) (s' : Simulation) : Prop where
  /-- If the client has left or plays already, nothing. -/
  ignored : s.lobby.connections.get? client = none ∨ (s.lobby.session? client).isSome → s' = s
  /-- Otherwise it is let in as long as there are fewer sessions than the capacity. -/
  letIn : (s.lobby.connections.get? client).isSome → s.lobby.session? client = none →
    s.lobby.sessions.size < capacity.toNat → ∃ h, s.LetsIn client account h s'
  /-- There are never more, and when there are as many it is turned away. -/
  size_le : s.lobby.sessions.size ≤ capacity.toNat
  turnedAway : (s.lobby.connections.get? client).isSome → s.lobby.session? client = none →
    s.lobby.sessions.size = capacity.toNat → s.TurnsAway client s'
  /-- No other session and no other connection is touched, and no connection comes or goes. -/
  apart : ∀ c, c ≠ client → s'.lobby.session? c = s.lobby.session? c ∧
    s'.lobby.connections.find? c = s.lobby.connections.find? c
  registered : s'.lobby.connections.registered = s.lobby.connections.registered

theorem get?_playerComponents (h : Handle) (client : ConnectionId) (account : AccountId)
    (k : Kind) : (Entity.ofComponents h (playerComponents client account)).get? k =
      if k = .transform then some (.transform .origin)
      else if k = .player then some (.player ⟨client, account⟩) else none := by
  have htransform : Component.kind (GameComponent.transform .origin) = Kind.transform := rfl
  have hplayer : Component.kind (GameComponent.player ⟨client, account⟩) = Kind.player := rfl
  rw [Entity.get?_ofComponents, playerComponents, List.filter_cons, List.filter_cons,
    List.filter_nil, htransform, hplayer]
  by_cases hk : k = .transform
  · rw [hk]
    rfl
  · by_cases hk' : k = .player
    · rw [hk']
      rfl
    · simp [hk, hk', eq_comm]

theorem Regular.letsIn (hs : s.Regular rules) (hsession : s.lobby.session? client = none)
    {store : Store GameComponent} {l : Lobby}
    (hcreate : s.world.store.create (playerComponents client account.id) = .ok (h, store))
    (hl : l = ⟨(s.lobby.sessions.put (.fresh client account.id h s.limits)).2,
      s.lobby.connections.modify client
        (·.useAll [.send (Event.loginAccepted h).toPacket, .flush])⟩)
    (hjoined : s' = { s with world := (s.world.withStore store).withShared l }) :
    s.LetsIn client account h s' := by
  obtain ⟨hcreates, htakes⟩ := Store.creates_of_ok hs.peopled.steady.toBounded hcreate
  have hstore : s'.world.store = store := congrArg (·.world.store) hjoined
  have hlobby : s'.lobby = l := congrArg lobby hjoined
  have hbrings := hs.peopled.steady.brings hcreates htakes
  rw [← hstore] at hbrings
  have hput : ∀ c, s'.lobby.session? c =
      if c = client then some (.fresh client account.id h s.limits) else s.lobby.session? c := by
    intro c
    rw [hlobby, hl]
    exact s.lobby.sessions.get?_put _ c
  refine ⟨hbrings.fresh, hbrings.isAlive, fun k => ?_,
    fun h' hne => ⟨hbrings.isAlive_of_ne h' hne, hbrings.find?_of_ne h' hne⟩,
    (hput client).trans (if_pos rfl), ?_, fun c x hx hentity => ?_, ?_, ?_⟩
  · rw [Store.get?, hbrings.find?_eq, Option.bind_some, get?_playerComponents]
  · have hperm : l.roll.Perm (⟨client, account.id, h⟩ :: s.lobby.roll) :=
      hl ▸ Sessions.perm_roll_put hsession
    have hlength := hperm.length_eq
    rw [List.length_cons, ← hlobby] at hlength
    simpa [Lobby.roll, Sessions.roll, Sessions.size] using hlength
  · by_contra hne
    rw [hput, if_neg hne] at hx
    obtain ⟨e, hliving, -⟩ := hs.peopled.linked x.bond (Sessions.mem_roll_of_get? hx)
    have hfound : s.world.store.find? x.entity = some e := Store.find?_of_living hliving
    have hboth : none = some e := hbrings.fresh.symm.trans (hentity ▸ hfound)
    cases hboth
  · rw [hlobby, hl]
  · rw [hstore, hlobby]
    exact hjoined

theorem turnsAway_of_error {k : Connection} {capacity : UInt32}
    (hk : s.lobby.connections.get? client = some k) (hsession : s.lobby.session? client = none)
    (hcreate : s.world.store.create (playerComponents client account.id) =
      .error (.capacity capacity)) : s.TurnsAway client (s.join client account) := by
  have hjoined : s.join client account =
      s.modifyLobby (·.modifyConnection client (·.dismiss fullNotice.toPacket)) := by
    simp only [Simulation.join, hk, hsession, hcreate]
  have hlabel : ∀ k : Connection, (k.dismiss fullNotice.toPacket).label = (k.id, true) :=
    fun k => k.label_dismiss _
  have hfound : s.lobby.connections.find? client = some k :=
    (Option.ite_none_right_eq_some.mp hk).2
  have hmodified := Connections.find?_modify (t := s.lobby.connections)
    (fun k _ => congrArg Prod.fst (hlabel k) : ∀ k, k.id = client → _) client
  rw [if_pos rfl, hfound, Option.map_some] at hmodified
  have hconnections : (s.join client account).lobby.connections =
      s.lobby.connections.modify client (·.dismiss fullNotice.toPacket) :=
    congrArg (·.lobby.connections) hjoined
  refine ⟨hjoined, ?_⟩
  rw [hconnections, Connections.isClosed, hmodified]
  exact congrArg Prod.snd (hlabel k)

/-- Mail about an authenticated client does all of it or nothing. -/
theorem Regular.admission (hs : s.Regular rules) (client : ConnectionId) (account : Account) :
    s.Admission s.world.store.capacity client account
      (s.handle client (.authenticated account)) := by
  have hsize : s.lobby.roll.length = s.lobby.sessions.size := List.length_map _
  have hle := hs.peopled.length_roll_le
  have hhandle : s.handle client (.authenticated account) = s.join client account := rfl
  -- All that can change besides the client's own session is the client's own connection.
  have hapart : ∀ c, c ≠ client → (s.join client account).lobby.session? c = s.lobby.session? c ∧
      (s.join client account).lobby.connections.find? c = s.lobby.connections.find? c := by
    intro c hne
    refine ⟨(s.session?_join client c account).resolve_right fun h => hne h.1, ?_⟩
    rcases s.join_cases client account with heq | ⟨-, f, hf, heq, -⟩
    · rw [heq]
    · rw [heq, Connections.find?_modify fun k _ => hf k, if_neg hne]
  have hregistered : (s.join client account).lobby.connections.registered =
      s.lobby.connections.registered := congrArg Prod.snd (s.outline_join client account)
  rw [hhandle]
  refine ⟨?_, ?_, hsize ▸ hle, ?_, hapart, hregistered⟩
  · rintro (hclient | hsession)
    · rw [Simulation.join, hclient]
    · obtain ⟨x, hx⟩ := Option.isSome_iff_exists.mp hsession
      rw [Simulation.join, hx]
      cases s.lobby.connections.get? client <;> rfl
  · intro hclient hsession hroom
    obtain ⟨k, hk⟩ := Option.isSome_iff_exists.mp hclient
    cases hcreate : s.world.store.create (playerComponents client account.id) with
    | error e =>
        have hfull : s.lobby.roll.length = s.world.store.capacity.toNat :=
          (hs.peopled.create_eq_error_iff.mp hcreate).1
        omega
    | ok created =>
        obtain ⟨h, store⟩ := created
        refine ⟨h, hs.letsIn hsession hcreate rfl ?_⟩
        have hsent : (fun k : Connection => (Session.send k (.loginAccepted h)).2) =
            (·.useAll [.send (Event.loginAccepted h).toPacket, .flush]) :=
          funext fun k => Session.send_eq_useAll k _
        simp only [Simulation.join, hk, hsession, hcreate, hsent]
        rfl
  · intro hclient hsession hfull
    obtain ⟨k, hk⟩ := Option.isSome_iff_exists.mp hclient
    have hcreate : s.world.store.create (playerComponents client account.id) =
        .error (.capacity s.world.store.capacity) :=
      hs.peopled.create_eq_error_iff.mpr ⟨hsize.trans hfull, rfl⟩
    exact turnsAway_of_error hk hsession hcreate

/-- Whatever reached a new simulation, admission is all or nothing. -/
theorem admission_of_run (setup : SimulationSetup) (events : List SimulationEvent)
    (client : ConnectionId) (account : Account) :
    ((new setup .empty).run events).Admission setup.entityCapacity client account
      (((new setup .empty).run events).handle client (.authenticated account)) := by
  have hnew := regular_new setup
  have hcapacity : ((new setup .empty).run events).world.store.capacity = setup.entityCapacity :=
    hnew.capacity_run events
  exact hcapacity ▸ (hnew.run events).admission client account

/-- The place of a client that is gone is free from the next tick on. -/
example :
    let start := new ⟨1, ⟨2, ⟨50⟩⟩, ⟨4, 4⟩⟩ .empty
    let full := start.run [.register (.v4 [127, 0, 0, 1] 4000) 8,
      .register (.v4 [127, 0, 0, 1] 4001) 8, .mail 1 (.authenticated ⟨⟨5⟩, "ada", "x"⟩), .close 1]
    let bob : Inbound := .authenticated ⟨⟨6⟩, "bob", "y"⟩
    (full.handle 2 bob).lobby.roll = full.lobby.roll ∧
      ((full.run [.tick ⟨50⟩]).handle 2 bob).lobby.roll = [⟨2, ⟨6⟩, ⟨0, 1⟩⟩] := by
  decide +kernel

end Simulation

end Realm
