import Realm.Proofs.Net.Ages
import Realm.Proofs.Server.Reading

/-!
# The handling of a connection

A client sends bytes in pieces and stops; the reader and the writer of its connection do one thing
after the other; in between the rest of the server does anything to the mailboxes and connections.
Here each of these is one step. Main statement: whatever the steps, the connection of a handler that
is gone is closed and removed.
-/

namespace Realm

/-- A step of a client, of its handler, or of the rest of the server. -/
inductive HandlerStep where
  | bytes (sent : List UInt8)
  /-- The client stops writing. -/
  | hangUp
  /-- The reader does one thing, and notices or overlooks that the connection is closed. -/
  | read (notices : Bool)
  | leave
  | write
  | remove
  /-- Mail comes and goes, and things are done to the connections. -/
  | others (router : Router Inbound) (uses : List TableUse)

/-- The act of a server that a step of the handler of a client is. -/
def HandlerStep.act? (client : ConnectionId) : HandlerStep → Option Act
  | .bytes sent => some (.bytes client sent)
  | .hangUp => some (.hangUp client)
  | .read notices => some (.reading client notices)
  | .leave => some (.leaving client)
  | .write => some (.writing client)
  | .remove => some (.removal client)
  | .others _ _ => none

theorem Downlink.label_drain (w : Downlink) (k : Connection) : (w.drain k).2.label = k.label := by
  have hdrain := k.label_drain none
  unfold drain
  cases hitems : k.drain none with
  | mk items k' =>
      rw [hitems] at hdrain
      cases items with
      | none => exact hdrain
      | some items =>
          dsimp only
          split <;> exact hdrain

theorem Handler.ages_write (h : Handler) (t : Connections) : t.Ages (h.write t).2 := by
  unfold write
  cases hk : t.find? h.client with
  | none => exact .refl t
  | some k =>
      have hlabel := h.downlink.label_drain k
      have hid : k.id = h.client := by simpa using List.find?_some hk
      refine Connections.ages_modify (fun k' hk' => ?_) fun k' hk' hclosed => ?_
      · rw [hk', ← hid]
        exact congrArg Prod.fst hlabel
      · cases hk.symm.trans hk'
        exact (congrArg Prod.snd hlabel).trans hclosed

namespace HandlerDesk

def start (limits : LineLimits) (now : Instant) (router : Router Inbound) (t : Connections)
    (address : SocketAddress) (capacity : Nat) : HandlerDesk :=
  let (c, t) := t.register address capacity
  ⟨limits, .start now c, ⟨router, t⟩⟩

def act (d : HandlerDesk) (f : Handler → Hub → Handler × Hub) : HandlerDesk :=
  let (handler, hub) := Handler.unlessGone f d.handler d.hub
  { d with handler, hub }

def step (now : Instant) (d : HandlerDesk) : HandlerStep → HandlerDesk
  | .bytes sent => { d with handler := (d.handler.feed sent).2 }
  | .hangUp => { d with handler := d.handler.hangUp }
  | .read notices => d.act (Handler.readOnce d.limits now notices)
  | .leave => d.act (Handler.onConnections (Handler.leave now))
  | .write => d.act (Handler.onConnections Handler.write)
  | .remove => d.act (Handler.onConnections (Handler.remove now))
  | .others router uses => { d with hub := ⟨router, d.hub.connections.afterAll uses⟩ }

def run (d : HandlerDesk) (steps : List (Instant × HandlerStep)) : HandlerDesk :=
  steps.foldl (fun d (now, s) => d.step now s) d

def sent (steps : List (Instant × HandlerStep)) : List UInt8 := steps.flatMap fun
  | (_, .bytes sent) => sent
  | _ => []

def published (d : HandlerDesk) : List (Instant × HandlerStep) → List Publication
  | [] => []
  | (now, s) :: steps =>
    d.handler.uplink.begun now d.hub.router (d.step now s).handler.uplink ++
      (d.step now s).published steps

/-- Nobody disturbs the reader at a step: a client that has stopped writing sends nothing, and as
long as the reader reads, the connection is open and the client is not silent for too long. -/
def Calm (now : Instant) (d : HandlerDesk) : HandlerStep → Prop
  | .bytes _ => d.handler.uplink.hungUp = false
  | .read _ => ∀ since, d.handler.uplink.phase = .reading since →
    d.hub.connections.isClosed d.handler.client = false ∧
      (d.handler.uplink.glimpse d.limits.maxPacket = .incomplete →
        now < since + d.limits.idle.millis)
  | _ => True

/-- Nobody disturbs the reader at any of some steps. -/
def AllCalm (d : HandlerDesk) : List (Instant × HandlerStep) → Prop
  | [] => True
  | (now, s) :: steps => d.Calm now s ∧ (d.step now s).AllCalm steps

variable {d : HandlerDesk} {now : Instant} {client : ConnectionId} {s : HandlerStep}
  {f : Handler → Hub → Handler × Hub}

theorem act_of_gone (h : d.handler.gone = true) (f : Handler → Hub → Handler × Hub) :
    d.act f = d := by
  unfold act Handler.unlessGone
  rw [if_pos h]

theorem act_of_there (h : d.handler.gone = false) (f : Handler → Hub → Handler × Hub) :
    d.act f = { d with handler := (f d.handler d.hub).1, hub := (f d.handler d.hub).2 } := by
  unfold act Handler.unlessGone
  rw [if_neg (by simp [h])]

/-! ## One step -/

theorem limits_step (d : HandlerDesk) (now : Instant) (s : HandlerStep) :
    (d.step now s).limits = d.limits := by
  cases s <;> rfl

/-- Leaving, writing and removing are no business of the reader. -/
theorem uplink_step (now : Instant) (d : HandlerDesk)
    (hs : s = .leave ∨ s = .write ∨ s = .remove) :
    (d.step now s).handler.uplink = d.handler.uplink := by
  have hact : ∀ f : Handler → Connections → Handler × Connections,
      (∀ h t, (f h t).1.uplink = h.uplink) →
      (d.act (Handler.onConnections f)).handler.uplink = d.handler.uplink := by
    intro f hf
    by_cases hgone : d.handler.gone = true
    · rw [act_of_gone hgone]
    · rw [act_of_there (eq_false_of_ne_true hgone)]
      exact hf ..
  rcases hs with rfl | rfl | rfl <;> refine hact _ fun h t => ?_
  · unfold Handler.leave
    split <;> rfl
  · unfold Handler.write
    split <;> rfl
  · unfold Handler.remove
    split <;> rfl

/-- The reader goes on only at its own steps. -/
theorem phase_step (now : Instant) (d : HandlerDesk) (hs : ∀ notices, s ≠ .read notices) :
    (d.step now s).handler.uplink.phase = d.handler.uplink.phase := by
  cases s with
  | read notices => exact absurd rfl (hs notices)
  | bytes more =>
      unfold HandlerDesk.step Handler.feed
      dsimp only
      split <;> rfl
  | hangUp => rfl
  | others router uses => rfl
  | leave | write | remove => exact congrArg Uplink.phase (uplink_step now d (by simp))

/-- The reader does something, and otherwise all is as before. -/
theorem step_read (notices : Bool) (hthere : d.handler.gone = false) {u : Uplink}
    {router : Router Inbound} (hstep : d.handler.uplink.step? d.limits
      (notices && d.hub.connections.isClosed d.handler.client) now d.hub.router =
        some (u, router)) : d.step now (.read notices) =
        { d with handler := { d.handler with uplink := u }, hub := { d.hub with router } } := by
  show d.act _ = _
  rw [act_of_there hthere, Handler.readOnce_of_some notices hstep]

/-- What the reader does at a step. -/
theorem read_cases (now : Instant) (d : HandlerDesk) (notices : Bool) :
    d.step now (.read notices) = d ∨
    ∃ u router, d.handler.uplink.step? d.limits
        (notices && d.hub.connections.isClosed d.handler.client) now d.hub.router =
          some (u, router) ∧
      d.step now (.read notices) =
        { d with handler := { d.handler with uplink := u }, hub := { d.hub with router } } := by
  by_cases hgone : d.handler.gone = true
  · exact .inl (act_of_gone hgone _)
  have hthere := eq_false_of_ne_true hgone
  cases hstep : d.handler.uplink.step? d.limits
      (notices && d.hub.connections.isClosed d.handler.client) now d.hub.router with
  | some next => exact .inr ⟨next.1, next.2, rfl, step_read notices hthere hstep⟩
  | none =>
      refine .inl ?_
      show d.act _ = d
      rw [act_of_there hthere, Handler.readOnce_of_none notices hstep]

theorem limits_run (d : HandlerDesk) (steps : List (Instant × HandlerStep)) :
    (d.run steps).limits = d.limits := by
  induction steps generalizing d with
  | nil => rfl
  | cons s steps ih => exact (ih _).trans (d.limits_step s.1 s.2)

theorem run_append (d : HandlerDesk) (steps later : List (Instant × HandlerStep)) :
    d.run (steps ++ later) = (d.run steps).run later := List.foldl_append

/-! ## The connection -/

/-- The connection of a handler is one of the table. It is closed once the reader has ended and the
handler is leaving, and registered no more when the handler is gone. -/
structure Placed (client : ConnectionId) (d : HandlerDesk) : Prop where
  client_eq : d.handler.client = client
  numbered : d.hub.connections.Numbered
  opened : client ∈ d.hub.connections.outline.1
  ended : d.handler.leaving ≠ none → d.handler.uplink.result? ≠ none
  closed : d.handler.leaving ≠ none → d.hub.connections.isClosed client = true
  leaving : d.handler.gone = true → d.handler.leaving ≠ none
  removed : d.handler.gone = true → client ∉ d.hub.connections.outline.2

theorem placed_start (limits : LineLimits) (now : Instant) (router : Router Inbound)
    {t : Connections} (hn : t.Numbered) (address : SocketAddress) (capacity : Nat) :
    (start limits now router t address capacity).Placed t.nextId := by
  refine ⟨rfl, (Connections.ages_register hn address capacity).numbered hn, ?_,
    fun h => absurd rfl h, fun h => absurd rfl h, nofun, nofun⟩
  simp [start, Connections.register, Connections.outline, Connection.fresh]

/-- The table gets older, and the handler stands where it stood. -/
theorem Placed.of_ages {d' : HandlerDesk} (h : d.Placed client)
    (hages : d.hub.connections.Ages d'.hub.connections)
    (hclient : d'.handler.client = d.handler.client)
    (hresult : d.handler.uplink.result? ≠ none → d'.handler.uplink.result? ≠ none)
    (hleaving : d'.handler.leaving = d.handler.leaving)
    (hgone : d'.handler.gone = d.handler.gone) : d'.Placed client := by
  refine ⟨hclient.trans h.client_eq, hages.numbered h.numbered, hages.opened h.opened,
    ?_, ?_, ?_, ?_⟩
  · rw [hleaving]
    exact fun hl => hresult (h.ended hl)
  · rw [hleaving]
    exact fun hl => hages.closed client h.opened (h.closed hl)
  · rw [hgone, hleaving]
    exact h.leaving
  · rw [hgone]
    exact fun hg => hages.left client h.opened (h.removed hg)

theorem Placed.leave (h : d.Placed client) (now : Instant) : (d.step now .leave).Placed client := by
  unfold step
  dsimp only
  by_cases hgone : d.handler.gone = true
  · rwa [act_of_gone hgone]
  rw [act_of_there (eq_false_of_ne_true hgone)]
  unfold Handler.onConnections Handler.leave
  by_cases hleave : d.handler.uplink.result?.isSome ∧ d.handler.leaving = none
  · rw [if_pos hleave]
    have hages := d.hub.connections.ages_close client
    have hclient := h.client_eq
    refine ⟨hclient, ?_, ?_, fun _ => ?_, fun _ => ?_, fun hg => absurd hg hgone,
      fun hg => absurd hg hgone⟩
    · rw [hclient]
      exact hages.numbered h.numbered
    · rw [hclient]
      exact hages.opened h.opened
    · exact Option.isSome_iff_ne_none.mp hleave.1
    · rw [hclient]
      exact (Connections.isClosed_close ..).trans (by simp)
  · rw [if_neg hleave]
    exact h

theorem Placed.remove (h : d.Placed client) (now : Instant) :
    (d.step now .remove).Placed client := by
  unfold step
  dsimp only
  by_cases hgone : d.handler.gone = true
  · rwa [act_of_gone hgone]
  rw [act_of_there (eq_false_of_ne_true hgone)]
  unfold Handler.onConnections Handler.remove
  by_cases hremove : d.handler.leaving.isSome ∧ !d.handler.gone ∧
      (d.handler.downlink.finished ∨ d.handler.leaving.any (· ≤ now))
  · rw [if_pos hremove]
    have hclient := h.client_eq
    have hleaving : d.handler.leaving ≠ none := Option.isSome_iff_ne_none.mp hremove.1
    let t := (d.hub.connections.remove client).2
    have hdrop : t.Ages (t.modify client Connection.dropWriter) :=
      Connections.ages_modify (fun _ _ => rfl) fun _ _ h => h
    have hages := (Connections.ages_remove d.hub.connections client).trans hdrop
    rw [hclient]
    refine ⟨hclient, hages.numbered h.numbered, hages.opened h.opened, fun _ => h.ended hleaving,
      fun _ => hages.closed client h.opened (h.closed hleaving), fun _ => hleaving, fun _ => ?_⟩
    exact hdrop.left client ((Connections.ages_remove _ client).opened h.opened)
      (Connections.notMem_registered_remove h.numbered client)
  · rw [if_neg hremove]
    exact h

theorem Placed.step (h : d.Placed client) (now : Instant) (s : HandlerStep) :
    (d.step now s).Placed client := by
  cases s with
  | leave => exact h.leave now
  | remove => exact h.remove now
  | bytes sent =>
      unfold HandlerDesk.step Handler.feed
      dsimp only
      split
      · exact h
      · exact h.of_ages (.refl _) rfl id rfl rfl
  | hangUp => exact h.of_ages (.refl _) rfl id rfl rfl
  | others router uses =>
      exact h.of_ages (Connections.ages_afterAll h.numbered uses) rfl id rfl rfl
  | write =>
      unfold HandlerDesk.step
      dsimp only
      by_cases hgone : d.handler.gone = true
      · rwa [act_of_gone hgone]
      · rw [act_of_there (eq_false_of_ne_true hgone)]
        have hkept : (d.handler.write d.hub.connections).1.uplink = d.handler.uplink ∧
            (d.handler.write d.hub.connections).1.leaving = d.handler.leaving ∧
            (d.handler.write d.hub.connections).1.gone = d.handler.gone := by
          unfold Handler.write
          split <;> exact ⟨rfl, rfl, rfl⟩
        refine h.of_ages (Handler.ages_write ..) (congrArg Uplink.client hkept.1)
          (fun hended => ?_) hkept.2.1 hkept.2.2
        exact (congrArg Uplink.result? hkept.1).symm ▸ hended
  | read notices =>
      rcases read_cases now d notices with hsame | ⟨u, router, hstep, hread⟩
      · rwa [hsame]
      · rw [hread]
        refine h.of_ages (.refl _) (Uplink.client_of_step? hstep) (fun hended => ?_) rfl rfl
        rw [Uplink.step?_of_ended hended] at hstep
        cases hstep

theorem Placed.run (h : d.Placed client) (steps : List (Instant × HandlerStep)) :
    (d.run steps).Placed client := by
  induction steps generalizing d with
  | nil => exact h
  | cons s steps ih => exact ih (h.step s.1 s.2)

/-! ## All that is done at an instant -/

theorem act_andThen {g : Handler → Hub → Handler × Hub} (hf : ∀ h hub, (f h hub).1.gone = h.gone)
    (d : HandlerDesk) : d.act (Handler.andThen f g) = (d.act f).act g := by
  unfold act
  rw [Handler.unlessGone_andThen hf]
  rfl

theorem act_readFor (now : Instant) (d : HandlerDesk) (rounds : Nat) :
    d.act (Handler.readFor d.limits now rounds) =
      d.run ((List.replicate rounds (.read true)).map (Prod.mk now)) := by
  induction rounds generalizing d with
  | zero =>
      by_cases hgone : d.handler.gone = true
      · exact act_of_gone hgone _
      · exact act_of_there (eq_false_of_ne_true hgone) _
  | succ rounds ih =>
      have hread : Handler.readFor d.limits now (rounds + 1) = Handler.andThen
          (Handler.readOnce d.limits now true) (Handler.readFor d.limits now rounds) := by
        funext h hub
        exact Handler.readFor_succ rounds h hub
      have hgone : ∀ h hub, (Handler.readOnce d.limits now true h hub).1.gone = h.gone := by
        intro h hub
        unfold Handler.readOnce
        split <;> rfl
      rw [hread, act_andThen hgone]
      exact ih (d.act (Handler.readOnce d.limits now true))

/-- All that a handler does at an instant are such steps. -/
theorem exists_run_settle (d : HandlerDesk) (now : Instant) :
    ∃ todo : List HandlerStep, d.settle now = d.run (todo.map (Prod.mk now)) := by
  have hsettle : d.settle now = d.act (Handler.andThen
      (Handler.readFor d.limits now (d.handler.uplink.unread.length + 3))
      (Handler.andThen (Handler.onConnections (Handler.leave now))
        (Handler.andThen (Handler.onConnections Handler.write)
          (Handler.onConnections (Handler.remove now))))) := by
    unfold settle act
    rw [Handler.settle_eq]
  refine ⟨.replicate (d.handler.uplink.unread.length + 3) (.read true) ++
    [.leave, .write, .remove], ?_⟩
  rw [hsettle, act_andThen fun _ _ => rfl, act_andThen fun h hub => (Handler.kept_leave h hub).2,
    act_andThen fun h hub => (Handler.kept_write h hub).2, act_readFor, List.map_append, run_append]
  rfl

/-! ## The server -/

structure At (d : HandlerDesk) (s : Server) : Prop where
  handler_eq : s.handler? d.handler.client = some d.handler
  hub_eq : s.hub = d.hub
  limits_eq : s.settings.line = d.limits

theorem At.handle {s : Server} (h : d.At s)
    (hf : ∀ handler hub, (f handler hub).1.client = handler.client) :
    (d.act f).At (s.handle d.handler.client (Handler.unlessGone f)) := by
  have hclient := Handler.client_unlessGone hf d.handler d.hub
  rw [Server.handle_of_some h.handler_eq, h.hub_eq]
  refine ⟨?_, rfl, h.limits_eq⟩
  show Server.handler? _ (Handler.unlessGone f d.handler d.hub).1.client = _
  rw [hclient]
  exact Server.handler?_modifyHandler (s := s.withHub _) h.handler_eq hclient

theorem At.modify {s : Server} (h : d.At s) (change : Handler → Handler)
    (hchange : ∀ handler, (change handler).client = handler.client) :
    At { d with handler := change d.handler } (s.modifyHandler d.handler.client change) := by
  refine ⟨?_, h.hub_eq, h.limits_eq⟩
  show Server.handler? _ (change d.handler).client = _
  have hfound := h.handler_eq
  unfold Server.handler? at hfound ⊢
  have hsame : ((fun other : Handler => decide (other.client = d.handler.client)) ∘
      fun other => if other.client = d.handler.client then change other else other) =
      fun other => decide (other.client = d.handler.client) := by
    funext other
    by_cases hother : other.client = d.handler.client <;> simp [hother, hchange]
  rw [hchange, Server.modifyHandler, List.find?_map, hsame, hfound, Option.map_some, if_pos rfl]

/-- What a handler does by itself, it does as part of a server. -/
theorem At.act {s : Server} {own : HandlerStep} {e : Act} (h : d.At s)
    (hact : own.act? d.handler.client = some e) (now : Instant) :
    (d.step now own).At (s.act now e) := by
  cases own with
  | others router uses => cases hact
  | bytes sent =>
      cases hact
      refine h.modify (fun handler => (handler.feed sent).2) fun handler => ?_
      unfold Handler.feed
      split <;> rfl
  | hangUp =>
      cases hact
      exact h.modify Handler.hangUp fun _ => rfl
  | read notices =>
      cases hact
      show HandlerDesk.At _
        (s.handle _ (Handler.unlessGone (Handler.readOnce s.settings.line now notices)))
      rw [h.limits_eq]
      exact h.handle (Handler.client_readOnce notices)
  | leave =>
      cases hact
      exact h.handle fun handler hub => (Handler.kept_leave handler hub).1
  | write =>
      cases hact
      exact h.handle fun handler hub => (Handler.kept_write handler hub).1
  | remove =>
      cases hact
      refine h.handle fun handler hub => ?_
      unfold Handler.onConnections Handler.remove
      dsimp only
      split <;> rfl

end HandlerDesk

end Realm
