import Mathlib.Data.List.Forall2
import Realm.Proofs.Account.Answer
import Realm.Proofs.Server.Act

/-!
# The ledger of a run

Beside a server a ledger is kept of where its requests come from: every packet that was taken from a
client, the packet behind each letter that waits for the login service, the packet and the job of
each request, and every lookup. The server takes no notice of the ledger. What the ledger says about
an account is that the client itself asked for it, and that the lookup for that request found it.
-/

namespace Realm

/-- Each call finds the accounts that are there at the time; a lookup may take any time, or never
end. -/
def Storage.ofRepositories (repositories : Nat → Repository)
    (duration : Nat → String → Option Nat) : Storage := fun call username =>
  ⟨duration call username, .answer (.ok ((repositories call).find? username))⟩

namespace Uplink

/-- The packet that a reader takes from the bytes sent, if it waits for one. -/
def packet? (limit : Nat) (closed : Bool) (u : Uplink) : Option Wire.Packet :=
  match u.phase, closed, u.glimpse limit with
  | .reading _, false, .packet p _ => some p
  | _, _, _ => none

variable {limits : LineLimits} {closed : Bool} {now : Instant} {router router' : Router Inbound}
  {u u' : Uplink}

/-- A reader goes on publishing, or takes a packet, or does neither. -/
theorem step?_cases (h : u.step? limits closed now router = some (u', router')) :
    (∃ d, u.phase = .publishing d ∧ router' = (d.advance now router).1 ∧
        ∀ d', u'.phase = .publishing d' → d' = (d.advance now router).2) ∨
      (∃ p rest, u.packet? limits.maxPacket closed = some p ∧ router' = router ∧
        u' = { u with unread := rest }.accept limits now router p) ∨
      u.packet? limits.maxPacket closed = none ∧ router' = router ∧
        ∀ d, u'.phase ≠ .publishing d := by
  unfold step? at h
  unfold packet?
  split at h
  · cases h
  · next d hphase =>
      refine .inl ⟨d, hphase, ?_⟩
      dsimp only at h
      split at h
      · cases h
        exact ⟨rfl, nofun⟩
      · cases h
        exact ⟨rfl, fun d' heq => (UplinkPhase.publishing.inj heq).symm⟩
  · next since hphase =>
      rw [hphase]
      refine .inr ?_
      split at h
      · next hclosed =>
          cases h
          simp [hclosed, finish]
      · next hopen =>
          rw [eq_false_of_ne_true hopen]
          split at h
          · next p rest hglimpse =>
              cases h
              rw [hglimpse]
              exact .inl ⟨p, rest, rfl, rfl, rfl⟩
          · next hglimpse =>
              cases h
              rw [hglimpse]
              exact .inr ⟨rfl, rfl, nofun⟩
          · next hglimpse =>
              cases h
              rw [hglimpse]
              exact .inr ⟨rfl, rfl, nofun⟩
          · next hglimpse =>
              rw [hglimpse]
              split at h
              · cases h
                exact .inr ⟨rfl, rfl, nofun⟩
              · cases h

theorem packet?_of_step?_eq_none (h : u.step? limits closed now router = none) :
    u.packet? limits.maxPacket closed = none := by
  unfold packet?
  split
  · next since hphase hglimpse =>
      simp [step?, hphase, hglimpse] at h
  · rfl

end Uplink

/-- Where things in a server come from. -/
structure Ledger where
  /-- The packets taken from clients, each with its client. -/
  sent : List (ConnectionId × Wire.Packet)
  /-- The number of the last packet of a client. -/
  latest : ConnectionId → Nat
  /-- For each letter that waits for the login service, the number of its packet. -/
  letters : List Nat
  /-- For each request, the number of its packet and its job. -/
  asked : List (Nat × Ticket)
  lookups : LookupLog

namespace Ledger

def empty : Ledger := ⟨[], fun _ => 0, [], [], []⟩

def send (client : ConnectionId) (p : Wire.Packet) (l : Ledger) : Ledger :=
  { l with
    sent := l.sent ++ [(client, p)]
    latest := fun other => if other = client then l.sent.length else l.latest other }

/-- So many letters of the last packet of a client come. -/
def arrive (client : ConnectionId) (n : Nat) (l : Ledger) : Ledger :=
  { l with letters := l.letters ++ .replicate n (l.latest client) }

/-- The login service takes the first letter and makes requests for it. -/
def take (tickets : List Ticket) (l : Ledger) : Ledger :=
  { l with letters := l.letters.tail, asked := l.asked ++ l.letters.zip tickets }

/-- The packet of that number was sent by the client and says the command. -/
def Says (l : Ledger) (k : Nat) (client : ConnectionId) (command : Command) : Prop :=
  ∃ p topic, l.sent[k]? = some (client, p) ∧ Command.catalog.decode p = .ok (topic, command)

/-- The client itself sent a login with the username and the password of the account, the login was
made a request, and the lookup for the job of that request found the account. -/
def Vouches (repositories : Nat → Repository) (l : Ledger) (client : ConnectionId)
    (account : Account) : Prop :=
  ∃ k ticket call, l.Says k client (.login account.username account.password) ∧
    (k, ticket) ∈ l.asked ∧ l.lookups[call]? = some (ticket, account.username) ∧
    (repositories call).find? account.username = some account

/-- The numbers of the packets that reached the login service or its mailbox. -/
def used (l : Ledger) : List Nat := l.letters ++ l.asked.map (·.1)

structure Extends (l l' : Ledger) : Prop where
  sent : l.sent <+: l'.sent
  asked : l.asked <+: l'.asked
  lookups : l.lookups <+: l'.lookups

variable {repositories : Nat → Repository} {l l' : Ledger} {k : Nat} {client : ConnectionId}
  {command : Command} {account : Account}

theorem Extends.refl (l : Ledger) : l.Extends l :=
  ⟨List.prefix_rfl, List.prefix_rfl, List.prefix_rfl⟩

theorem getElem?_of_prefix {α : Type} {xs ys : List α} {i : Nat} {x : α} (h : xs <+: ys)
    (hx : xs[i]? = some x) : ys[i]? = some x := by
  obtain ⟨more, rfl⟩ := h
  obtain ⟨hlt, -⟩ := List.getElem?_eq_some_iff.mp hx
  exact (List.getElem?_append_left hlt).trans hx

theorem Says.extends (hs : l.Says k client command) (h : l.Extends l') :
    l'.Says k client command := by
  obtain ⟨p, topic, hsent, hdecode⟩ := hs
  exact ⟨p, topic, getElem?_of_prefix h.sent hsent, hdecode⟩

theorem Says.lt (hs : l.Says k client command) : k < l.sent.length := by
  obtain ⟨p, topic, hsent, -⟩ := hs
  exact (List.getElem?_eq_some_iff.mp hsent).1

/-- A packet has one sender. -/
theorem Says.client_eq {client' : ConnectionId} {command' : Command}
    (hs : l.Says k client command) (hs' : l.Says k client' command') : client = client' := by
  obtain ⟨p, topic, hsent, -⟩ := hs
  obtain ⟨p', topic', hsent', -⟩ := hs'
  rw [hsent] at hsent'
  cases hsent'
  rfl

theorem Vouches.extends (hv : l.Vouches repositories client account) (h : l.Extends l') :
    l'.Vouches repositories client account := by
  obtain ⟨k, ticket, call, hsaid, hasked, hlookup, hfound⟩ := hv
  exact ⟨k, ticket, call, hsaid.extends h, h.asked.subset hasked,
    getElem?_of_prefix h.lookups hlookup, hfound⟩

theorem extends_send (client : ConnectionId) (p : Wire.Packet) (l : Ledger) :
    l.Extends (l.send client p) :=
  ⟨List.prefix_append .., List.prefix_rfl, List.prefix_rfl⟩

theorem extends_arrive (client : ConnectionId) (n : Nat) (l : Ledger) :
    l.Extends (l.arrive client n) :=
  ⟨List.prefix_rfl, List.prefix_rfl, List.prefix_rfl⟩

@[simp] theorem arrive_zero (client : ConnectionId) (l : Ledger) : l.arrive client 0 = l := by
  simp [arrive]

theorem extends_take (tickets : List Ticket) (l : Ledger) : l.Extends (l.take tickets) :=
  ⟨List.prefix_rfl, List.prefix_append .., List.prefix_rfl⟩

theorem latest_send_self (client : ConnectionId) (p : Wire.Packet) (l : Ledger) :
    (l.send client p).latest client = l.sent.length := if_pos rfl

theorem latest_send_of_ne {other : ConnectionId} (h : other ≠ client) (p : Wire.Packet)
    (l : Ledger) : (l.send client p).latest other = l.latest other := if_neg h

/-- The packet just taken is the latest of its client. -/
theorem says_send {p : Wire.Packet} {topic : Topic}
    (h : Command.catalog.decode p = .ok (topic, command)) (l : Ledger) :
    (l.send client p).Says ((l.send client p).latest client) client command := by
  rw [latest_send_self]
  exact ⟨p, topic, List.getElem?_concat_length, h⟩

end Ledger

def LoginService.made (before after : LoginService) : List Ticket :=
  (after.authenticator.requests.drop before.authenticator.requests.length).map (·.ticket)

namespace Server

/-- The packet that the reader of a client is about to take, if it notices or overlooks that the
connection is closed. -/
def packet? (s : Server) (client : ConnectionId) (notices : Bool) : Option Wire.Packet :=
  match s.handler? client with
  | none => none
  | some h =>
    if h.gone then none
    else h.uplink.packet? s.settings.line.maxPacket
      (notices && s.lobby.connections.isClosed h.client)

/-- The reader of a client goes on publishing, or takes a packet, or does neither. -/
theorem reading_cases (now : Instant) (notices : Bool) {s : Server} {client : ConnectionId}
    {h : Handler} (hfound : s.handler? client = some h) : ∃ h' hub,
      s.act now (.reading client notices) = (s.withHub hub).modifyHandler client (fun _ => h') ∧
      h'.client = h.client ∧
      ((∃ d, h.uplink.phase = .publishing d ∧ s.packet? client notices = none ∧
          hub.router = (d.advance now s.router).1 ∧
          ∀ d', h'.uplink.phase = .publishing d' → d' = (d.advance now s.router).2) ∨
        (∃ p rest, s.packet? client notices = some p ∧ hub.router = s.router ∧
          h'.uplink = { h.uplink with unread := rest }.accept s.settings.line now s.router p) ∨
        s.packet? client notices = none ∧ hub.router = s.router ∧
          ∀ d, h'.uplink.phase = .publishing d → h.uplink.phase = .publishing d) := by
  let closed := notices && s.lobby.connections.isClosed h.client
  refine ⟨_, _, (act_reading ..).trans (handle_of_some hfound), ?_, ?_⟩
  · exact Handler.client_unlessGone (Handler.client_readOnce notices) h s.hub
  · unfold Handler.unlessGone
    by_cases hgone : h.gone = true
    · rw [if_pos hgone]
      exact .inr (.inr ⟨by simp [packet?, hfound, hgone], rfl, fun _ hd => hd⟩)
    · have hpacket : s.packet? client notices =
          h.uplink.packet? s.settings.line.maxPacket closed := by
        simp [packet?, hfound, hgone, closed]
      rw [if_neg hgone, hpacket]
      cases hstep : h.uplink.step? s.settings.line closed now s.router with
      | none =>
          rw [Handler.readOnce_of_none notices hstep]
          exact .inr (.inr ⟨Uplink.packet?_of_step?_eq_none hstep, rfl, fun _ hd => hd⟩)
      | some next =>
          rw [Handler.readOnce_of_some notices hstep]
          rcases Uplink.step?_cases hstep with ⟨d, hphase, hrouter, hrest⟩ | htaken |
            ⟨hnone, hrouter, hno⟩
          · refine .inl ⟨d, hphase, ?_, hrouter, hrest⟩
            simp [Uplink.packet?, hphase]
          · exact .inr (.inl htaken)
          · exact .inr (.inr ⟨hnone, hrouter, fun d hd => absurd hd (hno d)⟩)

/-- What an act adds to the ledger: a packet that is taken; a letter of the latest packet of a
client, if one came into the mailbox of the login service; a request for the letter that is taken; a
lookup. -/
def note (now : Instant) (s : Server) (l : Ledger) (a : Act) : Ledger :=
  let s' := s.act now a
  match a with
  | .reading client notices =>
    match s.packet? client notices with
    | some p => l.send client p
    | none =>
      l.arrive client (s'.router.backlog s.loginBox - s.router.backlog s.loginBox)
  | .taking =>
    match (s.router.receive s.loginBox).1 with
    | .mail _ => l.take (s.login.made s'.login)
    | _ => l
  | .inquiry q => { l with lookups := l.lookups ++ s.login.authenticator.logged now q }
  | _ => l

end Server

structure Watch where
  server : Server
  ledger : Ledger

namespace Watch

def start (s : Server) : Watch := ⟨s, .empty⟩

def act (w : Watch) (now : Instant) (a : Act) : Watch :=
  ⟨w.server.act now a, w.server.note now w.ledger a⟩

def run (w : Watch) (acts : List (Instant × Act)) : Watch :=
  acts.foldl (fun w (now, a) => w.act now a) w

theorem run_append (w : Watch) (acts acts' : List (Instant × Act)) :
    w.run (acts ++ acts') = (w.run acts).run acts' := List.foldl_append

theorem server_run (w : Watch) (now : Instant) (todo : List Act) :
    (w.run (todo.map (now, ·))).server = w.server.acts now todo := by
  induction todo generalizing w with
  | nil => rfl
  | cons a rest ih => exact ih (w.act now a)

def steps (acts : List (Instant × Act)) : List (Instant × ServerStep) :=
  acts.filterMap fun (now, a) => a.step?.map (now, ·)

/-- Each run of a server is a run of acts: the same clients come and send the same bytes at the same
instants, and the ledger is kept. -/
theorem exists_run (w : Watch) (todo : List (Instant × ServerStep)) :
    ∃ acts, w.server.run todo = (w.run acts).server ∧
      steps acts = todo.filter (·.2.isSingle) := by
  induction todo generalizing w with
  | nil => exact ⟨[], rfl, rfl⟩
  | cons next rest ih =>
      obtain ⟨now, e⟩ := next
      obtain ⟨first, hfirst, hsingle⟩ := w.server.exists_acts_step now e
      obtain ⟨acts, hacts, hsteps⟩ := ih (w.run (first.map (now, ·)))
      refine ⟨first.map (now, ·) ++ acts, ?_, ?_⟩
      · rw [run_append, ← hacts, server_run, ← hfirst]
        rfl
      · have hnow : steps (first.map (now, ·)) = ([e].filter ServerStep.isSingle).map (now, ·) := by
          rw [← hsingle, List.map_filterMap, steps, List.filterMap_map]
          rfl
        have happend : steps (first.map (now, ·) ++ acts) =
            steps (first.map (now, ·)) ++ steps acts := List.filterMap_append
        rw [happend, hnow, hsteps]
        cases hsingle : e.isSingle <;> simp [hsingle]

end Watch

end Realm
