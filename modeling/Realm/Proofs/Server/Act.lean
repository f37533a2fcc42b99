import Realm.Proofs.Account.Inquiry
import Realm.Proofs.Router.Post
import Realm.Server.Basic

/-!
# A server, one act at a time

The parts of a server run side by side, so what one of them does at an instant can be torn apart by
what the others do. An act is as little as one part does on its own: a reader takes one packet or
goes on with one delivery, the login service takes one letter, one job is looked up, one login is
concluded, the simulation takes one mail. A reader that finds both a packet and its connection
closed attends to either. Acts come in any order and at any instants, and each step of a server is
a list of acts.
-/

namespace Realm

inductive Act where
  | arrival (address : SocketAddress)
  | beginning (n : Nat)
  | bytes (client : ConnectionId) (bytes : List UInt8)
  | hangUp (client : ConnectionId)
  /-- The reader of a client does one thing, and notices or overlooks that the connection is
  closed. -/
  | reading (client : ConnectionId) (notices : Bool)
  | leaving (client : ConnectionId)
  | writing (client : ConnectionId)
  | removal (client : ConnectionId)
  /-- The login service takes one mail. -/
  | taking
  /-- The workers or a request take one step. -/
  | inquiry (q : AuthStep)
  /-- The `n`-th login does what it can. -/
  | proceeding (n : Nat)
  /-- The simulation takes one mail. -/
  | mail
  | tick
  | shutdown

def Act.step? : Act → Option ServerStep
  | .arrival address => some (.arrival address)
  | .beginning n => some (.beginning n)
  | .bytes client sent => some (.bytes client sent)
  | .hangUp client => some (.hangUp client)
  | .tick => some .tick
  | .shutdown => some .shutdown
  | _ => none

/-- Whether a step is a single act, and not what a part of the server does until it is done. -/
def ServerStep.isSingle : ServerStep → Bool
  | .handling _ | .logins | .mail => false
  | _ => true

namespace Handler

def unlessGone (f : Handler → Hub → Handler × Hub) (h : Handler) (hub : Hub) : Handler × Hub :=
  if h.gone then (h, hub) else f h hub

def andThen (f g : Handler → Hub → Handler × Hub) (h : Handler) (hub : Hub) : Handler × Hub :=
  g (f h hub).1 (f h hub).2

def onConnections (f : Handler → Connections → Handler × Connections) (h : Handler) (hub : Hub) :
    Handler × Hub :=
  let (h, connections) := f h hub.connections
  (h, { hub with connections })

def readOnce (limits : LineLimits) (now : Instant) (notices : Bool) (h : Handler) (hub : Hub) :
    Handler × Hub :=
  match h.uplink.step? limits (notices && hub.connections.isClosed h.client) now hub.router with
  | none => (h, hub)
  | some (uplink, router) => ({ h with uplink }, { hub with router })

end Handler

namespace LoginService

def proceedAt (now : Instant) (n : Nat) (s : LoginService) (hub : Hub) : LoginService × Hub :=
  match s.logins[n]? with
  | none => (s, hub)
  | some login =>
    match proceed now s.authenticator hub login with
    | (some login, hub) => ({ s with logins := s.logins.set n login }, hub)
    | (none, hub) =>
      ({ s with
        permits := s.permits + 1
        pending := s.pending.erase login.client
        logins := s.logins.eraseIdx n }, hub)

end LoginService

namespace Server

def handle (s : Server) (client : ConnectionId) (f : Handler → Hub → Handler × Hub) : Server :=
  match s.handler? client with
  | none => s
  | some h =>
    let (h, hub) := f h s.hub
    (s.withHub hub).modifyHandler client fun _ => h

def act (now : Instant) (s : Server) : Act → Server
  | .arrival address => s.step now (.arrival address)
  | .beginning n => s.step now (.beginning n)
  | .bytes client bytes => s.step now (.bytes client bytes)
  | .hangUp client => s.step now (.hangUp client)
  | .reading client notices =>
    s.handle client (Handler.unlessGone (Handler.readOnce s.settings.line now notices))
  | .leaving client =>
    s.handle client (Handler.unlessGone (Handler.onConnections (Handler.leave now)))
  | .writing client => s.handle client (Handler.unlessGone (Handler.onConnections Handler.write))
  | .removal client =>
    s.handle client (Handler.unlessGone (Handler.onConnections (Handler.remove now)))
  | .taking =>
    let (login, hub) := LoginService.takeAll now s.loginBox 1 s.login s.hub
    { s.withHub hub with login }
  | .inquiry q => { s with login.authenticator := s.login.authenticator.step now q }
  | .proceeding n =>
    let (login, hub) := s.login.proceedAt now n s.hub
    { s.withHub hub with login }
  | .mail =>
    let (loop, router) := SimulationLoop.takeAll s.worldBox 1 s.loop s.router
    { s with loop, router }
  | .tick => s.step now .tick
  | .shutdown => s.step now .shutdown

def acts (now : Instant) (s : Server) (todo : List Act) : Server := todo.foldl (act now) s

theorem acts_append (now : Instant) (s : Server) (todo todo' : List Act) :
    s.acts now (todo ++ todo') = (s.acts now todo).acts now todo' := List.foldl_append

/-! ## A handler -/

section Handling

variable {f g : Handler → Hub → Handler × Hub} {client : ConnectionId} {now : Instant}

theorem handler?_eq_some {s : Server} {h : Handler} (hs : s.handler? client = some h) :
    h ∈ s.handlers ∧ h.client = client := by
  unfold handler? at hs
  exact ⟨List.mem_of_find?_eq_some hs, by simpa using List.find?_some hs⟩

theorem handler?_modifyHandler {s : Server} {h h' : Handler} (hs : s.handler? client = some h)
    (hclient : h'.client = client) :
    (s.modifyHandler client fun _ => h').handler? client = some h' := by
  have hsame : ((fun other : Handler => decide (other.client = client)) ∘
      fun other => if other.client = client then h' else other) =
      fun other => decide (other.client = client) := by
    funext other
    by_cases hother : other.client = client <;> simp [hother, hclient]
  obtain ⟨-, hfound⟩ := handler?_eq_some hs
  unfold handler? at hs ⊢
  rw [modifyHandler, List.find?_map, hsame, hs, Option.map_some, if_pos hfound]

theorem modifyHandler_modifyHandler (s : Server) {h h' : Handler} (hclient : h'.client = client) :
    (s.modifyHandler client fun _ => h').modifyHandler client (fun _ => h) =
      s.modifyHandler client fun _ => h := by
  unfold modifyHandler
  simp only [List.map_map]
  congr 1
  refine List.map_congr_left fun other _ => ?_
  by_cases hother : other.client = client <;> simp [hother, hclient]

theorem handle_of_some {s : Server} {h : Handler} (hs : s.handler? client = some h) :
    s.handle client f = (s.withHub (f h s.hub).2).modifyHandler client fun _ => (f h s.hub).1 := by
  simp only [handle, hs]

theorem handle_of_none {s : Server} (hs : s.handler? client = none) : s.handle client f = s := by
  simp only [handle, hs]

theorem mem_modifyHandler {s : Server} {f : Handler → Handler} {h : Handler}
    (hm : h ∈ (s.modifyHandler client f).handlers) :
    (∃ old ∈ s.handlers, old.client = client ∧ h = f old) ∨ h ∈ s.handlers ∧ h.client ≠ client := by
  obtain ⟨old, hold, rfl⟩ := List.mem_map.mp hm
  by_cases hclient : old.client = client
  · exact .inl ⟨old, hold, hclient, if_pos hclient⟩
  · rw [if_neg hclient]
    exact .inr ⟨hold, hclient⟩

/-- A handler does one thing after another. -/
theorem handle_handle (s : Server) (hf : ∀ h hub, (f h hub).1.client = h.client) :
    (s.handle client f).handle client g = s.handle client (Handler.andThen f g) := by
  cases hs : s.handler? client with
  | none => rw [handle_of_none hs, handle_of_none hs, handle_of_none hs]
  | some h =>
      obtain ⟨-, hclient⟩ := handler?_eq_some hs
      have hclient' : (f h s.hub).1.client = client := (hf h s.hub).trans hclient
      have hfound : ((s.withHub (f h s.hub).2).modifyHandler client
          fun _ => (f h s.hub).1).handler? client = some (f h s.hub).1 :=
        handler?_modifyHandler (s := s.withHub (f h s.hub).2) hs hclient'
      rw [handle_of_some hs, handle_of_some hfound, handle_of_some hs]
      exact modifyHandler_modifyHandler
        (s.withHub (g (f h s.hub).1 (f h s.hub).2).2) hclient'

theorem settings_handle (s : Server) (client : ConnectionId) (f : Handler → Hub → Handler × Hub) :
    (s.handle client f).settings = s.settings := by
  unfold handle
  split <;> rfl

end Handling

end Server

theorem Uplink.client_accept (limits : LineLimits) (now : Instant) (router : Router Inbound)
    (u : Uplink) (p : Wire.Packet) : (u.accept limits now router p).client = u.client := by
  unfold accept
  split
  · rfl
  · split <;> rfl

theorem Uplink.client_of_step? {limits : LineLimits} {closed : Bool} {now : Instant}
    {router router' : Router Inbound} {u u' : Uplink}
    (h : u.step? limits closed now router = some (u', router')) : u'.client = u.client := by
  unfold step? at h
  split at h
  · cases h
  · dsimp only at h
    split at h <;> (cases h; rfl)
  · split at h
    · cases h
      rfl
    · split at h
      · cases h
        exact client_accept ..
      · cases h
        rfl
      · cases h
        rfl
      · split at h
        · cases h
          rfl
        · cases h

namespace Handler

variable {limits : LineLimits} {now : Instant}

def readFor (limits : LineLimits) (now : Instant) (rounds : Nat) (h : Handler) (hub : Hub) :
    Handler × Hub :=
  let (uplink, router) :=
    h.uplink.steps limits (hub.connections.isClosed h.client) now rounds hub.router
  ({ h with uplink }, { hub with router })

theorem readOnce_of_none (notices : Bool) {h : Handler} {hub : Hub}
    (hstep : h.uplink.step? limits (notices && hub.connections.isClosed h.client) now hub.router =
      none) : readOnce limits now notices h hub = (h, hub) := by
  simp only [readOnce, hstep]

theorem readOnce_of_some (notices : Bool) {h : Handler} {hub : Hub} {uplink : Uplink}
    {router : Router Inbound}
    (hstep : h.uplink.step? limits (notices && hub.connections.isClosed h.client) now hub.router =
      some (uplink, router)) :
    readOnce limits now notices h hub = ({ h with uplink }, { hub with router }) := by
  simp only [readOnce, hstep]

theorem readFor_succ (rounds : Nat) (h : Handler) (hub : Hub) :
    readFor limits now (rounds + 1) h hub =
      readFor limits now rounds (readOnce limits now true h hub).1
        (readOnce limits now true h hub).2 := by
  cases hstep : h.uplink.step? limits (hub.connections.isClosed h.client) now hub.router with
  | none =>
      have hstuck : ∀ n, h.uplink.steps limits (hub.connections.isClosed h.client) now n
          hub.router = (h.uplink, hub.router) := by
        intro n
        cases n with
        | zero => rfl
        | succ n => rw [Uplink.steps, hstep]
      rw [readOnce_of_none true hstep]
      simp only [readFor, hstuck]
  | some next =>
      obtain ⟨uplink, router⟩ := next
      rw [readOnce_of_some true hstep]
      have hclient : ({ h with uplink } : Handler).client = h.client := Uplink.client_of_step? hstep
      simp only [readFor, hclient, Uplink.steps, hstep]

theorem client_readOnce (notices : Bool) (h : Handler) (hub : Hub) :
    (readOnce limits now notices h hub).1.client = h.client := by
  unfold readOnce
  split
  · rfl
  · next hstep => exact Uplink.client_of_step? hstep

theorem client_unlessGone {f : Handler → Hub → Handler × Hub}
    (hf : ∀ h hub, (f h hub).1.client = h.client) (h : Handler) (hub : Hub) :
    (unlessGone f h hub).1.client = h.client := by
  unfold unlessGone
  split
  · rfl
  · exact hf h hub

/-- Whether a handler is gone may be asked before each part. -/
theorem unlessGone_andThen {f g : Handler → Hub → Handler × Hub}
    (hf : ∀ h hub, (f h hub).1.gone = h.gone) :
    unlessGone (andThen f g) = andThen (unlessGone f) (unlessGone g) := by
  funext h hub
  by_cases hgone : h.gone = true
  · simp [unlessGone, andThen, hgone]
  · simp [unlessGone, andThen, hgone, hf]

theorem kept_leave (h : Handler) (hub : Hub) :
    (onConnections (leave now) h hub).1.client = h.client ∧
      (onConnections (leave now) h hub).1.gone = h.gone := by
  have hleave : (h.leave now hub.connections).1.client = h.client ∧
      (h.leave now hub.connections).1.gone = h.gone := by
    unfold leave
    split <;> exact ⟨rfl, rfl⟩
  exact hleave

theorem kept_write (h : Handler) (hub : Hub) :
    (onConnections write h hub).1.client = h.client ∧
      (onConnections write h hub).1.gone = h.gone := by
  have hwrite : (h.write hub.connections).1.client = h.client ∧
      (h.write hub.connections).1.gone = h.gone := by
    unfold write
    split <;> exact ⟨rfl, rfl⟩
  exact hwrite

theorem settle_eq (h : Handler) (hub : Hub) :
    h.settle limits now hub = unlessGone (andThen (readFor limits now (h.uplink.unread.length + 3))
      (andThen (onConnections (leave now)) (andThen (onConnections write)
        (onConnections (remove now))))) h hub := by
  unfold settle unlessGone
  split
  · rfl
  · rfl

end Handler

namespace Server

open Handler

variable {now : Instant} {client : ConnectionId}

theorem act_reading (now : Instant) (s : Server) (client : ConnectionId) (notices : Bool) :
    s.act now (.reading client notices) =
      s.handle client (unlessGone (readOnce s.settings.line now notices)) := rfl

/-- A reader that does what it can takes one thing after another. -/
theorem acts_reading (s : Server) (rounds : Nat) (g : Handler → Hub → Handler × Hub) :
    (s.acts now (.replicate rounds (.reading client true))).handle client g =
      s.handle client (andThen (unlessGone (readFor s.settings.line now rounds)) g) := by
  induction rounds generalizing s with
  | zero =>
      congr 1
      funext h hub
      unfold andThen unlessGone
      split <;> rfl
  | succ rounds ih =>
      have hsettings : (s.act now (.reading client true)).settings = s.settings :=
        settings_handle ..
      show ((s.act now (.reading client true)).acts now
        (.replicate rounds (.reading client true))).handle client g = _
      rw [ih, hsettings]
      refine (handle_handle s (client_unlessGone (client_readOnce true))).trans ?_
      congr 1
      funext h hub
      by_cases hgone : h.gone = true
      · simp [andThen, unlessGone, hgone]
      · have honce : (readOnce s.settings.line now true h hub).1.gone = false := by
          unfold readOnce
          split <;> simpa using hgone
        simp [andThen, unlessGone, hgone, honce, readFor_succ]

/-- All that a handler does at an instant is a list of acts. -/
theorem exists_acts_handling (s : Server) (now : Instant) (client : ConnectionId) :
    ∃ todo, s.step now (.handling client) = s.acts now todo ∧ todo.filterMap Act.step? = [] := by
  cases hs : s.handler? client with
  | none => exact ⟨[], by simp [step, hs, acts], rfl⟩
  | some h =>
      let rounds := h.uplink.unread.length + 3
      let leaves := unlessGone (onConnections (leave now))
      let writes := unlessGone (onConnections write)
      let removes := unlessGone (onConnections (remove now))
      have hstep : s.step now (.handling client) = s.handle client (unlessGone
          (andThen (readFor s.settings.line now rounds) (andThen (onConnections (leave now))
            (andThen (onConnections write) (onConnections (remove now)))))) := by
        simp only [step, handle, hs, settle_eq]
        rfl
      have hleaves : ∀ h hub, (leaves h hub).1.client = h.client :=
        client_unlessGone fun h hub => (kept_leave h hub).1
      have hwrites : ∀ h hub, (andThen leaves writes h hub).1.client = h.client := fun h hub =>
        (client_unlessGone (fun h hub => (kept_write h hub).1) _ _).trans (hleaves h hub)
      refine ⟨.replicate rounds (.reading client true) ++
        [.leaving client, .writing client, .removal client], ?_, by simp [Act.step?]⟩
      rw [hstep, unlessGone_andThen fun _ _ => rfl,
        unlessGone_andThen fun h hub => (kept_leave h hub).2,
        unlessGone_andThen fun h hub => (kept_write h hub).2, acts_append, ← acts_reading]
      let read := s.acts now (.replicate rounds (.reading client true))
      show read.handle client (andThen (andThen leaves writes) removes) =
        ((read.handle client leaves).handle client writes).handle client removes
      rw [handle_handle read hleaves, handle_handle read hwrites]

end Server

/-! ## The login service and the simulation -/

namespace LoginService

variable {now : Instant}

/-- The login service takes a letter: it makes a request for it, if it is a login, or else nothing
that could succeed comes of it. -/
theorem take_cases (now : Instant) (s : LoginService) (hub : Hub) (mail : Mail Inbound) :
    (s.take now hub mail).2.router = hub.router ∧
      ((s.take now hub mail).1.authenticator = s.authenticator ∧
          (∀ login ∈ (s.take now hub mail).1.logins,
            login ∈ s.logins ∨ login.stage = .judged .timedOut) ∨
        ∃ username password, mail.payload = .command (.login username password) ∧
          (s.take now hub mail).1.authenticator =
            (s.authenticator.submit now username password).2 ∧
          (s.take now hub mail).1.logins = s.logins ++
            [⟨mail.client, .authenticating s.authenticator.requests.length⟩]) := by
  unfold take
  split
  · next username password hpayload =>
      unfold request
      split
      · exact ⟨rfl, .inl ⟨rfl, fun _ hm => .inl hm⟩⟩
      · split
        · exact ⟨rfl, .inl ⟨rfl, fun _ hm => .inl hm⟩⟩
        · dsimp only
          split
          · refine ⟨rfl, .inl ⟨rfl, ?_⟩⟩
            intro login hm
            rcases List.mem_append.mp hm with hm | hm
            · exact .inl hm
            · rw [List.mem_singleton.mp hm]
              exact .inr rfl
          · exact ⟨rfl, .inr ⟨username, password, hpayload, rfl, rfl⟩⟩
  · exact ⟨rfl, .inl ⟨rfl, fun _ hm => .inl hm⟩⟩

theorem takeAll_of_mail {mailbox : MailboxId} {s : LoginService} {hub : Hub} {mail : Mail Inbound}
    {router : Router Inbound} (h : hub.router.receive mailbox = (.mail mail, router))
    (rounds : Nat) : takeAll now mailbox (rounds + 1) s hub =
      takeAll now mailbox rounds (s.take now { hub with router } mail).1
        (s.take now { hub with router } mail).2 := by
  rw [takeAll, h]

theorem takeAll_of_none {mailbox : MailboxId} {s : LoginService} {hub : Hub}
    (h : ∀ mail, (hub.router.receive mailbox).1 ≠ .mail mail) (rounds : Nat) :
    takeAll now mailbox rounds s hub = (s, hub) := by
  cases rounds with
  | zero => rfl
  | succ rounds =>
      cases hreceive : hub.router.receive mailbox with
      | mk found router =>
          rw [hreceive] at h
          rw [takeAll, hreceive]
          cases found with
          | mail mail => exact absurd rfl (h mail)
          | ended => rfl
          | nothing => rfl

theorem takeAll_succ (mailbox : MailboxId) (rounds : Nat) (s : LoginService) (hub : Hub) :
    takeAll now mailbox (rounds + 1) s hub = takeAll now mailbox rounds
      (takeAll now mailbox 1 s hub).1 (takeAll now mailbox 1 s hub).2 := by
  by_cases h : ∃ mail, (hub.router.receive mailbox).1 = .mail mail
  · obtain ⟨mail, hmail⟩ := h
    have hreceive : hub.router.receive mailbox = (.mail mail, (hub.router.receive mailbox).2) :=
      Prod.ext hmail rfl
    rw [takeAll_of_mail hreceive, takeAll_of_mail hreceive]
    rfl
  · have hnone := not_exists.mp h
    rw [takeAll_of_none hnone, takeAll_of_none hnone, takeAll_of_none hnone]

theorem proceedAll_of_some {s : LoginService} {hub hub' : Hub} {login login' : Login}
    (h : proceed now s.authenticator hub login = (some login', hub')) (rest : List Login) :
    proceedAll now s hub (login :: rest) =
      ({ (proceedAll now s hub' rest).1 with
        logins := login' :: (proceedAll now s hub' rest).1.logins },
        (proceedAll now s hub' rest).2) := by
  rw [proceedAll, h]

theorem proceedAll_of_none {s : LoginService} {hub hub' : Hub} {login : Login}
    (h : proceed now s.authenticator hub login = (none, hub')) (rest : List Login) :
    proceedAll now s hub (login :: rest) = proceedAll now
      { s with permits := s.permits + 1, pending := s.pending.erase login.client } hub' rest := by
  rw [proceedAll, h]

/-- What the logins do does not depend on the list they are kept in. -/
theorem proceedAll_logins (s : LoginService) (hub : Hub) (logins todo : List Login) :
    proceedAll now { s with logins } hub todo = proceedAll now s hub todo := by
  induction todo generalizing s hub with
  | nil => rfl
  | cons login rest ih =>
      cases h : proceed now s.authenticator hub login with
      | mk next hub' =>
          cases next with
          | some login' =>
              rw [proceedAll_of_some h, proceedAll_of_some (s := { s with logins }) h, ih]
          | none =>
              rw [proceedAll_of_none h, proceedAll_of_none (s := { s with logins }) h]
              exact ih { s with
                permits := s.permits + 1, pending := s.pending.erase login.client } hub'

end LoginService

/-- A loop that takes nothing once takes nothing again. -/
theorem SimulationLoop.takeAll_succ (mailbox : MailboxId) (rounds : Nat) (l : SimulationLoop)
    (router : Router Inbound) :
    takeAll mailbox (rounds + 1) l router =
      takeAll mailbox rounds (takeAll mailbox 1 l router).1 (takeAll mailbox 1 l router).2 := by
  have hstill : ∀ {l : SimulationLoop} {router : Router Inbound},
      (l.running && l.listening) = false → ∀ rounds, takeAll mailbox rounds l router = (l, router) := by
    intro l router hl rounds
    cases rounds with
    | zero => rfl
    | succ rounds => rw [takeAll, hl]; rfl
  cases hl : l.running && l.listening with
  | false => rw [hstill hl, hstill hl, hstill hl]
  | true =>
      cases hreceive : router.receive mailbox with
      | mk found router' =>
          cases found with
          | mail mail => simp [takeAll, hl, hreceive]
          | ended =>
              have hended : ((l.step .mailboxEnded).running &&
                  (l.step .mailboxEnded).listening) = false := by
                unfold step
                split
                · next h => simp at h; simp [h]
                · simp
              simp [takeAll, hl, hreceive, hstill hended]
          | nothing =>
              obtain rfl := Router.eq_of_receive hreceive nofun
              have hnothing : ∀ rounds, takeAll mailbox rounds l router' = (l, router') := by
                intro rounds
                cases rounds with
                | zero => rfl
                | succ rounds => simp [takeAll, hl, hreceive]
              rw [hnothing, hnothing, hnothing]

namespace Server

variable {now : Instant}

theorem act_taking (now : Instant) (s : Server) : s.act now .taking =
    { s.withHub (LoginService.takeAll now s.loginBox 1 s.login s.hub).2 with
      login := (LoginService.takeAll now s.loginBox 1 s.login s.hub).1 } := rfl

theorem acts_taking (s : Server) (rounds : Nat) :
    s.acts now (.replicate rounds .taking) =
      { s.withHub (LoginService.takeAll now s.loginBox rounds s.login s.hub).2 with
        login := (LoginService.takeAll now s.loginBox rounds s.login s.hub).1 } := by
  induction rounds generalizing s with
  | zero => rfl
  | succ rounds ih =>
      show (s.act now .taking).acts now (.replicate rounds .taking) = _
      rw [ih, LoginService.takeAll_succ]
      rfl

theorem acts_inquiry (s : Server) (todo : List AuthStep) :
    s.acts now (todo.map .inquiry) =
      { s with login.authenticator := s.login.authenticator.steps now todo } := by
  induction todo generalizing s with
  | nil => rfl
  | cons q rest ih =>
      show (s.act now (.inquiry q)).acts now (rest.map .inquiry) = _
      rw [ih]
      rfl

theorem exists_acts_proceeding (now : Instant) (s : Server) (done todo : List Login)
    (hlogins : s.login.logins = done ++ todo) :
    ∃ ns : List Nat, s.acts now (ns.map .proceeding) =
      { s.withHub (LoginService.proceedAll now s.login s.hub todo).2 with
        login := { (LoginService.proceedAll now s.login s.hub todo).1 with
          logins := done ++ (LoginService.proceedAll now s.login s.hub todo).1.logins } } := by
  induction todo generalizing s done with
  | nil =>
      refine ⟨[], ?_⟩
      rw [List.append_nil] at hlogins
      simp only [LoginService.proceedAll, List.append_nil, ← hlogins]
      rfl
  | cons login rest ih =>
      have hat : s.login.logins[done.length]? = some login := by simp [hlogins]
      cases h : LoginService.proceed now s.login.authenticator s.hub login with
      | mk next hub =>
          cases next with
          | some login' =>
              let s' : Server := { s.withHub hub with
                login := { s.login with logins := (done ++ [login']) ++ rest } }
              have hact : s.act now (.proceeding done.length) = s' := by
                simp [act, LoginService.proceedAt, h, hlogins, s']
              obtain ⟨ns, hns⟩ := ih s' (done ++ [login']) rfl
              have hrest : LoginService.proceedAll now s'.login s'.hub rest =
                  LoginService.proceedAll now s.login hub rest :=
                LoginService.proceedAll_logins s.login hub _ rest
              refine ⟨done.length :: ns, ?_⟩
              show (s.act now (.proceeding done.length)).acts now (ns.map .proceeding) = _
              rw [hact, hns, hrest, LoginService.proceedAll_of_some h, List.append_assoc]
              rfl
          | none =>
              let freed : LoginService := { s.login with
                permits := s.login.permits + 1
                pending := s.login.pending.erase login.client }
              let s' : Server := { s.withHub hub with
                login := { freed with logins := done ++ rest } }
              have hact : s.act now (.proceeding done.length) = s' := by
                simp [act, LoginService.proceedAt, h, hlogins, s', freed,
                  List.eraseIdx_append_of_length_le]
              obtain ⟨ns, hns⟩ := ih s' done rfl
              have hrest : LoginService.proceedAll now s'.login s'.hub rest =
                  LoginService.proceedAll now freed hub rest :=
                LoginService.proceedAll_logins freed hub _ rest
              refine ⟨done.length :: ns, ?_⟩
              show (s.act now (.proceeding done.length)).acts now (ns.map .proceeding) = _
              rw [hact, hns, hrest, LoginService.proceedAll_of_none h]
              rfl

theorem acts_mail (s : Server) (rounds : Nat) :
    s.acts now (.replicate rounds .mail) =
      { s with
        loop := (SimulationLoop.takeAll s.worldBox rounds s.loop s.router).1
        router := (SimulationLoop.takeAll s.worldBox rounds s.loop s.router).2 } := by
  induction rounds generalizing s with
  | zero => rfl
  | succ rounds ih =>
      show (s.act now .mail).acts now (.replicate rounds .mail) = _
      rw [ih, SimulationLoop.takeAll_succ]
      rfl

/-- Each step of a server is a list of acts, and no other step is among them. -/
theorem exists_acts_step (s : Server) (now : Instant) (e : ServerStep) :
    ∃ todo, s.step now e = s.acts now todo ∧
      todo.filterMap Act.step? = [e].filter ServerStep.isSingle := by
  cases e with
  | arrival address => exact ⟨[.arrival address], rfl, rfl⟩
  | beginning n => exact ⟨[.beginning n], rfl, rfl⟩
  | bytes client bytes => exact ⟨[.bytes client bytes], rfl, rfl⟩
  | hangUp client => exact ⟨[.hangUp client], rfl, rfl⟩
  | handling client => exact s.exists_acts_handling now client
  | logins =>
      let taken := s.acts now (.replicate (s.router.backlog s.loginBox) .taking)
      obtain ⟨inquiries, hinquiries⟩ :=
        Authenticator.exists_steps_settle now taken.login.authenticator
      let settled : Server := { taken with
        login.authenticator := taken.login.authenticator.settle now }
      have hsettled : taken.acts now (inquiries.map .inquiry) = settled := by
        rw [acts_inquiry, ← hinquiries]
      obtain ⟨ns, hns⟩ := exists_acts_proceeding now settled [] settled.login.logins rfl
      refine ⟨.replicate (s.router.backlog s.loginBox) .taking ++
        (inquiries.map .inquiry ++ ns.map .proceeding), ?_, ?_⟩
      · rw [acts_append, acts_append, hsettled, hns]
        simp only [settled, taken, acts_taking, List.nil_append]
        rfl
      · simp [Act.step?, ServerStep.isSingle]
  | mail =>
      refine ⟨_, (s.acts_mail (s.router.backlog s.worldBox + 1)).symm, ?_⟩
      simp [Act.step?, ServerStep.isSingle]
  | tick => exact ⟨[.tick], rfl, rfl⟩
  | shutdown => exact ⟨[.shutdown], rfl, rfl⟩

end Server

end Realm
