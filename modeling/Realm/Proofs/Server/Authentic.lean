import Realm.Proofs.Server.Accounts

/-!
# Who is authenticated

Every act keeps the ledger accounting for the server, and so does every run. What follows is that a
session belongs to a client that itself logged in, with the credentials of the account that the
lookup for this login found; and that nothing else that any client sends makes mail that calls
somebody authenticated.
-/

namespace Realm

open Settings (ServerSettings)

namespace Ledger

variable {repositories : Nat → Repository} {l l' : Ledger} {s s' : Server} {now : Instant}
  {client : ConnectionId} {notices : Bool}

/-! ## Acts that concern neither mail nor logins -/

theorem Accounts.quiet (hs : l.Accounts repositories s) (hlogin : s'.login = s.login)
    (hrouter : s'.router = s.router) (hworld : s'.worldBox = s.worldBox)
    (hbox : s'.loginBox = s.loginBox)
    (huplinks : ∀ h' ∈ s'.handlers, ∀ d, h'.uplink.phase = .publishing d →
      ∃ h ∈ s.handlers, h.client = h'.client ∧ h.uplink.phase = .publishing d)
    (henrolled : s'.loop.simulation.Enrolled (l.Backs repositories)) :
    l.Accounts repositories s' := by
  refine ⟨?_, ?_, ?_, ?_, ?_, henrolled⟩
  · rw [hworld, hbox]
    exact hs.boxes_ne
  · rw [hrouter, hbox]
    exact hs.posts
  · rw [hlogin]
    exact hs.asks
  · intro h' hm d hphase
    obtain ⟨h, hm, hclient, hphase⟩ := huplinks h' hm d hphase
    rw [hbox, ← hclient]
    exact hs.uplinks h hm d hphase
  · rw [hlogin, hbox]
    exact hs.logins

/-- The handlers change, but not what they publish. -/
theorem Accounts.modifyHandler (hs : l.Accounts repositories s) {f : Handler → Handler}
    (hf : ∀ h, (f h).client = h.client ∧ (f h).uplink.phase = h.uplink.phase) :
    l.Accounts repositories (s.modifyHandler client f) := by
  refine hs.quiet rfl rfl rfl rfl ?_ hs.enrolled
  intro h' hm d hphase
  rcases Server.mem_modifyHandler hm with ⟨h, hold, -, rfl⟩ | ⟨hm, -⟩
  · exact ⟨h, hold, (hf h).1.symm, (hf h).2.symm.trans hphase⟩
  · exact ⟨h', hm, rfl, hphase⟩

/-- A handler does something with the connections. -/
theorem Accounts.handle (hs : l.Accounts repositories s)
    {f : Handler → Connections → Handler × Connections}
    (hf : ∀ h connections, (f h connections).1.uplink = h.uplink) :
    l.Accounts repositories
      (s.handle client (Handler.unlessGone (Handler.onConnections f))) := by
  let g := Handler.unlessGone (Handler.onConnections f)
  show l.Accounts repositories (s.handle client g)
  cases hfound : s.handler? client with
  | none =>
      rw [Server.handle_of_none hfound]
      exact hs
  | some h =>
      obtain ⟨hm, -⟩ := Server.handler?_eq_some hfound
      have hkept : (g h s.hub).1.uplink = h.uplink ∧ (g h s.hub).2.router = s.router := by
        simp only [g, Handler.unlessGone]
        split
        · exact ⟨rfl, rfl⟩
        · exact ⟨hf h s.hub.connections, rfl⟩
      rw [Server.handle_of_some hfound]
      refine hs.quiet rfl hkept.2 rfl rfl ?_ ⟨hs.enrolled.enrols, hs.enrolled.does⟩
      intro h' hm' d hphase
      rcases Server.mem_modifyHandler hm' with ⟨-, -, -, rfl⟩ | ⟨hm', -⟩
      · rw [hkept.1] at hphase
        exact ⟨h, hm, congrArg Uplink.client hkept.1.symm, hphase⟩
      · exact ⟨h', hm', rfl, hphase⟩

/-! ## The simulation -/

theorem Accounts.tick (hs : l.Accounts repositories s) :
    l.Accounts repositories (s.act now .tick) :=
  hs.quiet rfl rfl rfl rfl (fun h hm _ hphase => ⟨h, hm, rfl, hphase⟩)
    (SimulationLoop.enrolled_step hs.enrolled (.tick now) trivial)

/-- The simulation takes a mail, which is vouched for if it calls somebody authenticated. -/
theorem Accounts.mail (hs : l.Accounts repositories s) :
    l.Accounts repositories (s.act now .mail) := by
  show l.Accounts repositories { s with
    loop := (SimulationLoop.takeAll s.worldBox 1 s.loop s.router).1
    router := (SimulationLoop.takeAll s.worldBox 1 s.loop s.router).2 }
  unfold SimulationLoop.takeAll
  split
  · exact hs
  · cases hreceive : s.router.receive s.worldBox with
    | mk found router =>
        cases found with
        | mail mail =>
            have hposts := hs.posts.receive hreceive hs.boxes_ne
            have htells : (LoopEvent.mail mail).Tells (l.Backs repositories) := by
              intro account hpayload entity
              have hfirst : mail ∈ s.router.queued s.worldBox := by
                rw [(Router.queued_of_receive hreceive).1]
                exact List.mem_cons_self
              exact ⟨account, rfl, hs.posts.mail _ mail hfirst account hpayload⟩
            exact ⟨hs.boxes_ne, hposts, hs.asks, hs.uplinks, hs.logins,
              SimulationLoop.enrolled_step hs.enrolled (.mail mail) htells⟩
        | ended =>
            obtain rfl := Router.eq_of_receive hreceive (by simp)
            exact ⟨hs.boxes_ne, hs.posts, hs.asks, hs.uplinks, hs.logins,
              SimulationLoop.enrolled_step hs.enrolled .mailboxEnded trivial⟩
        | nothing =>
            obtain rfl := Router.eq_of_receive hreceive (by simp)
            exact ⟨hs.boxes_ne, hs.posts, hs.asks, hs.uplinks, hs.logins, hs.enrolled⟩

/-- A server that stops drops the mail of the simulation and gives the topics up. -/
theorem Accounts.shutdown (hs : l.Accounts repositories s) :
    l.Accounts repositories (s.act now .shutdown) := by
  have hcollapse : ∀ (topics : List Topic) (r : Router Inbound),
      l.Posts repositories s.loginBox r →
      l.Posts repositories s.loginBox (topics.foldl Router.collapse r) := by
    intro topics
    induction topics with
    | nil => exact fun r hr => hr
    | cons topic rest ih =>
        intro r hr
        refine ih _ (hr.subset (hr.wired.collapse topic) (r.queued_collapse topic _) ?_)
        intro box mail hm
        exact r.queued_collapse topic box ▸ hm
  have hstop : l.Posts repositories s.loginBox (s.loop.stop s.worldBox s.router).2 ∧
      (s.loop.stop s.worldBox s.router).1.simulation.Enrolled (l.Backs repositories) := by
    unfold SimulationLoop.stop
    split
    · refine ⟨hs.posts.subset (hs.posts.wired.of_eq rfl) ?_ ?_,
        SimulationLoop.enrolled_step hs.enrolled .ticksEnded trivial⟩
      · exact (Router.queued_drop ..).trans (if_neg hs.boxes_ne)
      · intro box mail hm
        have hdropped := Router.queued_drop s.router s.worldBox box
        rw [show ((s.router.act s.worldBox .drop).2.queued box) = _ from hdropped] at hm
        split at hm
        · cases hm
        · exact hm
    · exact ⟨hs.posts, hs.enrolled⟩
  exact ⟨hs.boxes_ne, hcollapse Server.topics _ hstop.1, hs.asks, hs.uplinks, hs.logins,
    ⟨hstop.2.enrols, hstop.2.does⟩⟩

/-! ## The login service -/

theorem Accounts.inquiry (hs : l.Accounts repositories s) (q : AuthStep) :
    Accounts repositories (s.note now l (.inquiry q)) (s.act now (.inquiry q)) := by
  let l' : Ledger := { l with lookups := l.lookups ++ s.login.authenticator.logged now q }
  have hextends : l.Extends l' := ⟨List.prefix_rfl, List.prefix_rfl, List.prefix_append ..⟩
  refine ⟨hs.boxes_ne, hs.posts.extends hextends rfl rfl, hs.asks.step now q, ?_, ?_, ?_⟩
  · intro h hm d hphase
    obtain ⟨hclient, hcovers, honce, hfresh⟩ := hs.uplinks h hm d hphase
    exact ⟨hclient, hcovers.extends hextends, honce, hfresh⟩
  · exact fun login hm => (hs.logins login hm).extends hextends
  · exact hs.enrolled.imp fun b => Backs.extends hextends

/-- A login does what it can. -/
theorem Accounts.proceeding (hs : l.Accounts repositories s) (n : Nat) :
    l.Accounts repositories (s.act now (.proceeding n)) := by
  show l.Accounts repositories { s.withHub (s.login.proceedAt now n s.hub).2 with
    login := (s.login.proceedAt now n s.hub).1 }
  unfold LoginService.proceedAt
  cases hlogin : s.login.logins[n]? with
  | none => exact hs
  | some login =>
      have hnext := Posts.proceed now s.hub hs.posts hs.asks
        (hs.logins login (List.mem_of_getElem? hlogin))
      dsimp only
      cases hproceed : LoginService.proceed now s.login.authenticator s.hub login with
      | mk next hub =>
          rw [hproceed] at hnext
          cases next with
          | some login' =>
              refine ⟨hs.boxes_ne, hnext.posts, hs.asks, hs.uplinks, ?_,
                ⟨hs.enrolled.enrols, hs.enrolled.does⟩⟩
              intro other hm
              rcases List.mem_or_eq_of_mem_set hm with hm | rfl
              · exact hs.logins other hm
              · exact hnext.grounds _ rfl
          | none =>
              exact ⟨hs.boxes_ne, hnext.posts, hs.asks, hs.uplinks,
                fun other hm => hs.logins other (List.mem_of_mem_eraseIdx hm),
                ⟨hs.enrolled.enrols, hs.enrolled.does⟩⟩

/-- A letter is taken, and the login service has perhaps a login more. -/
theorem Accounts.take {mail : Mail Inbound} {service : LoginService} {hub : Hub}
    {tickets : List Ticket} (hs : l.Accounts repositories s)
    (hreceive : s.router.receive s.loginBox = (.mail mail, hub.router))
    (hone : tickets.length ≤ 1) (hasks : (l.take tickets).Asks repositories service.authenticator)
    (hlogins : ∀ login ∈ service.logins,
      (l.take tickets).Grounds repositories s.loginBox login) :
    (l.take tickets).Accounts repositories { s.withHub hub with login := service } := by
  have hextends := l.extends_take tickets
  refine ⟨hs.boxes_ne, hs.posts.take hreceive hone, hasks, ?_, hlogins,
    ⟨(hs.enrolled.imp fun b => Backs.extends hextends).enrols, hs.enrolled.does⟩⟩
  intro h hm d hphase
  obtain ⟨hclient, hcovers, honce, hfresh⟩ := hs.uplinks h hm d hphase
  exact ⟨hclient, hcovers.extends hextends, honce,
    fun hbox hused => hfresh hbox ((used_take_subperm hone).subset hused)⟩

theorem Accounts.taking_mail {mail : Mail Inbound} {router : Router Inbound}
    (hs : l.Accounts repositories s)
    (hreceive : s.router.receive s.loginBox = (.mail mail, router)) :
    Accounts repositories (s.note now l .taking) (s.act now .taking) := by
  let taken := s.login.take now { s.hub with router } mail
  obtain ⟨hrouter, hcases⟩ := LoginService.take_cases now s.login { s.hub with router } mail
  have hact : s.act now .taking = { s.withHub taken.2 with login := taken.1 } := by
    rw [Server.act_taking, LoginService.takeAll_of_mail hreceive]
    rfl
  have hnote : s.note now l .taking = l.take (s.login.made taken.1) := by
    simp only [Server.note, hact, hreceive]
  rw [hact, hnote]
  replace hreceive : s.router.receive s.loginBox = (.mail mail, taken.2.router) :=
    hreceive.trans (congrArg _ hrouter.symm)
  rcases hcases with ⟨hsame, hlogins⟩ | ⟨username, password, hpayload, hsubmit, hlogins⟩
  · have hmade : s.login.made taken.1 = [] := by simp [LoginService.made, taken, hsame]
    rw [hmade]
    refine hs.take hreceive (Nat.zero_le 1) (hsame.symm ▸ hs.asks.take_nothing) ?_
    intro login hm
    rcases hlogins login hm with hm | hjudged
    · exact (hs.logins login hm).extends (l.extends_take [])
    · exact grounds_of_judged hjudged nofun
  · obtain ⟨k, rest, hletters, ⟨command, hcommand, hsaid⟩, -⟩ := hs.posts.first hreceive
    obtain rfl : command = .login username password := by
      rw [hpayload] at hcommand
      exact (Inbound.command.inj hcommand).symm
    let ticket := s.login.authenticator.pool.jobs.length
    have hmade : s.login.made taken.1 = [ticket] := by
      obtain ⟨r, job, hrequests, hticket, -⟩ :=
        Authenticator.requests_submit now s.login.authenticator username password
      simp [LoginService.made, taken, hsubmit, hrequests, hticket, ticket]
    have hasked : (l.take [ticket]).asked = l.asked ++ [(k, ticket)] := by
      simp [Ledger.take, hletters]
    rw [hmade]
    refine hs.take hreceive (Nat.le_refl 1) (hsubmit.symm ▸ hs.asks.submit hsaid hasked) ?_
    intro login hm
    rw [hlogins] at hm
    rcases List.mem_append.mp hm with hm | hm
    · exact (hs.logins login hm).extends (l.extends_take [ticket])
    · rw [List.mem_singleton.mp hm]
      refine ⟨k, ticket, _, ?_, hsaid.extends (l.extends_take [ticket])⟩
      rw [hasked, ← hs.asks.length_eq]
      exact List.getElem?_concat_length

theorem Accounts.taking (hs : l.Accounts repositories s) :
    Accounts repositories (s.note now l .taking) (s.act now .taking) := by
  cases hreceive : s.router.receive s.loginBox with
  | mk found router =>
      cases found with
      | mail mail => exact hs.taking_mail hreceive
      | _ =>
          have hnone : s.act now .taking = s := by
            rw [Server.act_taking, LoginService.takeAll_of_none (by simp [Server.hub, hreceive])]
            rfl
          have hnote : s.note now l .taking = l := by simp only [Server.note, hreceive]
          rw [hnone, hnote]
          exact hs

/-! ## Readers -/

/-- The reader of a client has done something, and the ledger knows. -/
theorem Accounts.read (hs : l.Accounts repositories s) {h : Handler} {hub : Hub}
    (hl : l.Extends l') (hasked : l'.asked = l.asked) (hlookups : l'.lookups = l.lookups)
    (hclient : h.client = client) (hposts : l'.Posts repositories s.loginBox hub.router)
    (hown : ∀ d, h.uplink.phase = .publishing d → l'.Publishes s.loginBox client d)
    (hothers : ∀ other d, other ≠ client → l.Publishes s.loginBox other d →
      l'.Publishes s.loginBox other d) :
    l'.Accounts repositories ((s.withHub hub).modifyHandler client fun _ => h) := by
  refine ⟨hs.boxes_ne, hposts, hs.asks.extends hl hasked hlookups, ?_,
    fun login hm => (hs.logins login hm).extends hl,
    ⟨(hs.enrolled.imp fun b => Backs.extends hl).enrols, hs.enrolled.does⟩⟩
  intro h' hm d hphase
  rcases Server.mem_modifyHandler hm with ⟨-, -, -, rfl⟩ | ⟨hm, hne⟩
  · exact hclient ▸ hown d hphase
  · exact hothers h'.client d hne (hs.uplinks h' hm d hphase)

theorem note_reading_of_some {p : Wire.Packet} (hp : s.packet? client notices = some p) :
    s.note now l (.reading client notices) = l.send client p := by
  simp [Server.note, hp]

theorem note_reading_of_none (hp : s.packet? client notices = none) :
    s.note now l (.reading client notices) = l.arrive client
      ((s.act now (.reading client notices)).router.backlog s.loginBox -
        s.router.backlog s.loginBox) := by
  simp [Server.note, hp]

/-- A packet that is read after the close accounts for as much as one that is read before. -/
theorem Accounts.reading (hs : l.Accounts repositories s) (client : ConnectionId)
    (notices : Bool) : Accounts repositories (s.note now l (.reading client notices))
      (s.act now (.reading client notices)) := by
  cases hfound : s.handler? client with
  | none =>
      have hsame : s.act now (.reading client notices) = s :=
        (Server.act_reading ..).trans (Server.handle_of_none hfound)
      have hnone : s.packet? client notices = none := by simp [Server.packet?, hfound]
      rw [note_reading_of_none hnone, hsame, Nat.sub_self, arrive_zero]
      exact hs
  | some h =>
      obtain ⟨hm, rfl⟩ := Server.handler?_eq_some hfound
      obtain ⟨h', hub, hact, hclient, hcases⟩ := Server.reading_cases now notices hfound
      rcases hcases with ⟨d, hphase, hnone, hrouter, hrest⟩ | ⟨p, rest, hpacket, hrouter, huplink⟩ |
        ⟨hnone, hrouter, hphase⟩
      · have hd := hs.uplinks h hm d hphase
        have hadds := Delivery.adds_advance now s.router d
        rw [← hrouter] at hadds
        rw [note_reading_of_none hnone, hact]
        refine hs.read (l.extends_arrive _ _) rfl rfl hclient ?_ ?_ ?_
        · exact hs.posts.adds hadds h.client
            (fun account hpayload => absurd hpayload (hd.not_authenticated account))
            fun hlisted => ⟨hd.covers, hd.fresh hlisted, hd.once⟩
        · intro d' hphase'
          rw [hrest d' hphase']
          exact hd.advance hadds (Delivery.mail_advance now s.router d)
        · exact fun other d' hne hother => hother.arrive hd hne _
      · rw [note_reading_of_some hpacket, hact]
        refine hs.read (l.extends_send _ p) rfl rfl hclient ?_ ?_ ?_
        · exact hrouter ▸ hs.posts.extends (l.extends_send _ p) rfl rfl
        · intro d hd
          rw [huplink] at hd
          exact publishes_accept (u := { h.uplink with unread := rest }) hs.posts hd
        · exact fun other d hne hother => hother.send hne p
      · have hkept : (s.act now (.reading h.client notices)).router = s.router := by
          rw [hact]
          exact hrouter
        rw [note_reading_of_none hnone, hkept, Nat.sub_self, arrive_zero, hact]
        exact hs.read (.refl l) rfl rfl hclient (hrouter ▸ hs.posts)
          (fun d hd => hs.uplinks h hm d (hphase d hd)) fun _ _ _ hd => hd

/-! ## Runs -/

theorem Accounts.beginning (hs : l.Accounts repositories s) (n : Nat) :
    l.Accounts repositories (s.act now (.beginning n)) := by
  show l.Accounts repositories (s.step now (.beginning n))
  unfold Server.step
  dsimp only
  split
  · exact hs
  · next c a _ =>
      refine hs.quiet rfl rfl rfl rfl ?_ ⟨hs.enrolled.enrols, hs.enrolled.does⟩
      intro h hm d hphase
      rcases List.mem_append.mp hm with hm | hm
      · exact ⟨h, hm, rfl, hphase⟩
      · rw [List.mem_singleton.mp hm] at hphase
        cases hphase

/-- An act keeps the ledger accounting for the server. -/
theorem Accounts.act (hs : l.Accounts repositories s) (now : Instant) (a : Act) :
    Accounts repositories (s.note now l a) (s.act now a) := by
  cases a with
  | arrival address =>
      show l.Accounts repositories (s.step now (.arrival address))
      unfold Server.step
      dsimp only
      split
      · exact hs.quiet rfl rfl rfl rfl (fun h hm _ hphase => ⟨h, hm, rfl, hphase⟩) hs.enrolled
      · exact hs
  | beginning n => exact hs.beginning n
  | bytes client bytes =>
      refine hs.modifyHandler fun h => ?_
      unfold Handler.feed
      split <;> exact ⟨rfl, rfl⟩
  | hangUp client => exact hs.modifyHandler fun _ => ⟨rfl, rfl⟩
  | reading client notices => exact hs.reading client notices
  | leaving client =>
      refine hs.handle fun h connections => ?_
      unfold Handler.leave
      split <;> rfl
  | writing client =>
      refine hs.handle fun h connections => ?_
      unfold Handler.write
      split <;> rfl
  | removal client =>
      refine hs.handle fun h connections => ?_
      unfold Handler.remove
      split <;> rfl
  | taking => exact hs.taking
  | inquiry q => exact hs.inquiry q
  | proceeding n => exact hs.proceeding n
  | mail => exact hs.mail
  | tick => exact hs.tick
  | shutdown => exact hs.shutdown

theorem logged_start (limits : AuthLimits) (storage : Storage) (workers capacity : Nat) :
    (Authenticator.start limits (.start storage workers capacity)).Logged [] :=
  ⟨⟨rfl, List.nodup_nil, nofun, nofun, nofun⟩, rfl, nofun⟩

/-- At the start each topic has the mailbox of the part that it is for. -/
theorem router_start (now : Instant) (settings : ServerSettings) (storage : Storage)
    (processors : Nat) : (Server.start now settings storage processors).router =
      let capacity := max 1 settings.routing.mailboxCapacity
      ⟨{ settings.routing with mailboxCapacity := capacity },
        [.fresh 1 capacity, .fresh 2 capacity],
        [(.commands, [1]), (.chat, [1]), (.authenticated, [1]), (.login, [2])]⟩ := by
  simp [Server.start, Server.furtherTopics, Router.subscribe, Router.attach, Router.prune,
    Router.closeAll, Router.holds, Router.refuses, Router.box?, Router.new, Router.append,
    Router.nextId, Mailbox.fresh, Mailbox.refuses, Topic.commands, Topic.chat,
    Topic.authenticated, Topic.login]

section Start

variable (now : Instant) (settings : ServerSettings) (storage : Storage) (processors : Nat)

theorem loginBox_start : (Server.start now settings storage processors).loginBox = 2 := by
  simp [Server.start, Server.furtherTopics, Router.subscribe, Router.attach, Router.prune,
    Router.closeAll, Router.nextId, Router.new]

theorem queued_start (box : MailboxId) :
    (Server.start now settings storage processors).router.queued box = [] := by
  rw [router_start]
  by_cases h1 : 1 = box
  · simp [Router.queued, Router.box?, Mailbox.fresh, Bounded.empty, h1]
  · by_cases h2 : 2 = box <;>
      simp [Router.queued, Router.box?, Mailbox.fresh, Bounded.empty, h1, h2]

theorem posts_start : empty.Posts repositories 2
    (Server.start now settings storage processors).router where
  wired := by
    rw [Router.Wired, router_start]
    show ∀ entry ∈ [(Topic.commands, [1]), (.chat, [1]), (.authenticated, [1]), (.login, [2])],
      entry.2.count 2 ≤ if entry.1 = .login then 1 else 0
    decide
  letters := by
    rw [queued_start]
    exact .nil
  mail box mail hm := by
    rw [queued_start] at hm
    cases hm
  used_nodup := List.nodup_nil
  used_lt k hk := absurd hk List.not_mem_nil

theorem asks_start (duration : Nat → String → Option Nat) :
    empty.Asks repositories (Server.start now settings
      (.ofRepositories repositories duration) processors).login.authenticator where
  storage_eq := ⟨duration, rfl⟩
  logged := logged_start ..
  tickets_eq := rfl
  made i k ticket hi := by cases hi

theorem accounts_start (duration : Nat → String → Option Nat) :
    empty.Accounts repositories
      (Server.start now settings (.ofRepositories repositories duration) processors) where
  boxes_ne := by
    rw [loginBox_start]
    exact Nat.succ_ne_self 1
  posts := by
    rw [loginBox_start]
    exact posts_start ..
  asks := asks_start ..
  uplinks h hm := absurd hm List.not_mem_nil
  logins login hm := absurd hm List.not_mem_nil
  enrolled := Simulation.enrolled_new _

end Start

/-- The ledger of every run accounts for the server. -/
theorem Accounts.run {w : Watch} (hw : w.ledger.Accounts repositories w.server)
    (acts : List (Instant × Act)) :
    (w.run acts).ledger.Accounts repositories (w.run acts).server := by
  induction acts generalizing w with
  | nil => exact hw
  | cons next rest ih => exact ih (hw.act next.1 next.2)

structure Authenticates (repositories : Nat → Repository) (l : Ledger) (s : Server) : Prop where
  /-- A session has the account that a login of its own client was answered with. -/
  session : ∀ session ∈ s.lobby.sessions.sessions,
    ∃ account, account.id = session.account ∧ l.Vouches repositories session.connection account
  /-- Mail that calls a client authenticated goes back to a login of that client, whichever mailbox
  it is in. -/
  mail : ∀ box, ∀ mail ∈ s.router.queued box, ∀ account,
    mail.payload = .authenticated account → l.Vouches repositories mail.client account
  /-- The same holds of the mail that is being announced. -/
  announced : ∀ login ∈ s.login.logins, ∀ d, login.stage = .announcing d →
    ∃ account, d.mail = ⟨login.client, .authenticated account, none⟩ ∧
      l.Vouches repositories login.client account
  /-- What is published for a client is a command that the client itself sent. -/
  published : ∀ h ∈ s.handlers, ∀ d, h.uplink.phase = .publishing d →
    ∃ command k, d.mail.client = h.client ∧ d.mail.payload = .command command ∧
      l.Says k h.client command
  /-- Each request has a packet and a job of its own, and the packet is a login with the username
  that the job asks for. -/
  asked : ∀ k ticket, (k, ticket) ∈ l.asked → ∃ client job password,
    s.login.authenticator.pool.jobs[ticket]? = some job ∧
      l.Says k client (.login job.username password)
  packets_nodup : (l.asked.map (·.1)).Nodup
  jobs_nodup : (l.asked.map (·.2)).Nodup
  /-- The lookups are the calls of the storage, and no job is looked up twice. -/
  calls_eq : l.lookups.map (·.2) = s.login.authenticator.pool.calls
  lookups_nodup : (l.lookups.map (·.1)).Nodup

theorem Accounts.authenticates (hs : l.Accounts repositories s) :
    l.Authenticates repositories s where
  session session hm := hs.enrolled.enrols session.bond (List.mem_map_of_mem hm)
  mail := hs.posts.mail
  announced login hm d hstage := by
    have hlogin := hs.logins login hm
    rw [Grounds, hstage] at hlogin
    exact hlogin.2
  published h hm d hphase := by
    have hd := hs.uplinks h hm d hphase
    obtain ⟨command, hpayload, hsaid⟩ := hd.covers
    exact ⟨command, _, hd.client_eq, hpayload, hd.client_eq ▸ hsaid⟩
  asked k ticket hm := by
    obtain ⟨i, hi⟩ := List.mem_iff_getElem?.mp hm
    obtain ⟨r, job, client, -, -, hjob, hsaid⟩ := hs.asks.made i k ticket hi
    exact ⟨client, job, r.password, hjob, hsaid⟩
  packets_nodup := (List.nodup_append.mp hs.posts.used_nodup).2.1
  jobs_nodup := by
    rw [hs.asks.tickets_eq, hs.asks.logged.tickets_eq_range]
    exact List.nodup_range
  calls_eq := hs.asks.logged.pool.calls_eq
  lookups_nodup := hs.asks.logged.pool.nodup

end Ledger

namespace Watch

/-- Whatever the clients send and in whatever order the parts of a server act: a client that is
authenticated has logged in itself, and the lookup for that login found the account. Every run of
the server is such a run, with the same steps of the clients at the same instants. -/
theorem authenticates_run (now : Instant) (settings : ServerSettings)
    (repositories : Nat → Repository) (duration : Nat → String → Option Nat) (processors : Nat) :
    let w := start (.start now settings (.ofRepositories repositories duration) processors)
    (∀ acts, (w.run acts).ledger.Authenticates repositories (w.run acts).server) ∧
      ∀ todo, ∃ acts, w.server.run todo = (w.run acts).server ∧
        steps acts = todo.filter (·.2.isSingle) := by
  intro w
  have hstart : w.ledger.Accounts repositories w.server :=
    Ledger.accounts_start now settings processors duration
  exact ⟨fun acts => (hstart.run acts).authenticates, w.exists_run⟩

/-- A client logs in and gets a session. -/
theorem authenticates_run_of_login :
    let repository : Repository := .ofList [("ada", "x")]
    let settings : ServerSettings := ⟨.v4 [127, 0, 0, 1] 7777, 4, 60, 64, ⟨50, 4, 2, 100⟩,
      ⟨4, 4, 8⟩, ⟨100, 4⟩, ⟨some 1, 4, 500, 2000, 4⟩⟩
    let w := start (.start 0 settings (.ofRepositories (fun _ => repository) fun _ _ => some 5) 1)
    let acts : List Act := [.arrival (.v4 [127, 0, 0, 1] 9000), .beginning 0,
      .bytes 1 [0, 6, 3, 97, 100, 97, 1, 120], .reading 1 true, .reading 1 false,
      .taking,
      .inquiry (.look 0), .inquiry (.observe 0), .inquiry (.finish 0), .inquiry (.observe 0),
      .proceeding 0, .mail]
    let after := w.run ((List.range acts.length).map fun i => (10 * i, acts.getD i .tick))
    after.server.lobby.roll = [⟨1, ⟨1⟩, ⟨0, 0⟩⟩] ∧ after.ledger.asked = [(0, 0)] ∧
      after.ledger.Authenticates (fun _ => repository) after.server := by
  refine ⟨by decide +kernel, by decide +kernel, ?_⟩
  exact (authenticates_run 0 _ _ _ _).1 _

end Watch

end Realm
