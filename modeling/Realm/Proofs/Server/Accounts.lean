import Mathlib.Data.List.Perm.Subperm
import Realm.Proofs.Server.Ledger
import Realm.Proofs.Simulation.Enrolment

/-!
# The ledger accounts for the server

What is in a server at any time goes back to entries of its ledger: the letters that wait for the
login service to packets of the client they name, the requests to such letters, the logins to
requests of their own client, and whatever says that a client is authenticated to a lookup for one
of its own logins. One lemma for each part of the server says that an act of the part keeps it so.
-/

namespace Realm

namespace Ledger

variable {repositories : Nat → Repository} {l l' : Ledger} {loginBox : MailboxId}
  {client : ConnectionId} {account : Account} {now : Instant}

/-! ## Mail -/

/-- The mail is what its client said in the packet of that number. -/
def Covers (l : Ledger) (mail : Mail Inbound) (k : Nat) : Prop :=
  ∃ command, mail.payload = .command command ∧ l.Says k mail.client command

/-- The letters are those that wait for the login service, each with a packet of its own, and mail
about an authenticated client is vouched for. -/
structure Posts (repositories : Nat → Repository) (l : Ledger) (loginBox : MailboxId)
    (r : Router Inbound) : Prop where
  wired : r.Wired .login loginBox
  letters : List.Forall₂ l.Covers (r.queued loginBox) l.letters
  mail : ∀ box, ∀ mail ∈ r.queued box, ∀ account, mail.payload = .authenticated account →
    l.Vouches repositories mail.client account
  used_nodup : l.used.Nodup
  used_lt : ∀ k ∈ l.used, k < l.sent.length

section Posts

variable {r r' : Router Inbound} {mail : Mail Inbound} {todo todo' : List MailboxId} {k : Nat}

theorem Covers.extends (hm : l.Covers mail k) (h : l.Extends l') : l'.Covers mail k := by
  obtain ⟨command, hpayload, hsaid⟩ := hm
  exact ⟨command, hpayload, hsaid.extends h⟩

theorem Covers.lt (hm : l.Covers mail k) : k < l.sent.length := by
  obtain ⟨command, -, hsaid⟩ := hm
  exact hsaid.lt

/-- More is known, but no letter came or went. -/
theorem Posts.extends (hp : l.Posts repositories loginBox r) (h : l.Extends l')
    (hletters : l'.letters = l.letters) (hasked : l'.asked = l.asked) :
    l'.Posts repositories loginBox r := by
  have hused : l'.used = l.used := by rw [used, used, hletters, hasked]
  refine ⟨hp.wired, ?_, ?_, hused ▸ hp.used_nodup, ?_⟩
  · rw [hletters]
    exact hp.letters.imp fun _ _ hm => hm.extends h
  · intro box mail hm account hpayload
    exact (hp.mail box mail hm account hpayload).extends h
  · intro k hk
    exact Nat.lt_of_lt_of_le (hp.used_lt k (hused ▸ hk)) h.sent.length_le

/-- Mail was taken from other mailboxes. -/
theorem Posts.subset (hp : l.Posts repositories loginBox r) (hwired : r'.Wired .login loginBox)
    (hletters : r'.queued loginBox = r.queued loginBox)
    (hmail : ∀ box, ∀ mail ∈ r'.queued box, mail ∈ r.queued box) :
    l.Posts repositories loginBox r' :=
  ⟨hwired, hletters ▸ hp.letters, fun box mail hm => hp.mail box mail (hmail box mail hm),
    hp.used_nodup, hp.used_lt⟩

/-- A delivery that brought a copy of its mail to the login service brought no more than one, and
the ledger has a letter more. -/
theorem Posts.adds (hp : l.Posts repositories loginBox r) (h : Router.Adds mail r todo r' todo')
    (client : ConnectionId)
    (hvouched : ∀ account, mail.payload = .authenticated account →
      l.Vouches repositories mail.client account)
    (hnew : loginBox ∈ todo →
      l.Covers mail (l.latest client) ∧ l.latest client ∉ l.used ∧ todo.count loginBox ≤ 1) :
    (l.arrive client (r'.backlog loginBox - r.backlog loginBox)).Posts repositories loginBox
      r' := by
  obtain ⟨hqueued, hcount⟩ := h.arrived loginBox
  have hmail : ∀ box, ∀ other ∈ r'.queued box, ∀ account, other.payload = .authenticated account →
      l.Vouches repositories other.client account := by
    intro box other hm account hpayload
    rcases List.mem_append.mp ((h.arrived box).1 ▸ hm) with hm | hm
    · exact hp.mail box other hm account hpayload
    · obtain rfl := List.eq_of_mem_replicate hm
      exact hvouched account hpayload
  have hwired : r'.Wired .login loginBox := hp.wired.of_eq h.topics_eq
  -- A copy that came was due once, so there is one at most.
  match harrived : r'.backlog loginBox - r.backlog loginBox with
  | 0 =>
      rw [harrived, List.replicate_zero, List.append_nil] at hqueued
      rw [arrive_zero]
      exact ⟨hwired, hqueued ▸ hp.letters, hmail, hp.used_nodup, hp.used_lt⟩
  | n + 1 =>
      obtain ⟨hcovers, hfresh, honce⟩ := hnew (List.count_pos_iff.mp (by omega))
      obtain rfl : n = 0 := by omega
      rw [harrived] at hqueued
      have hperm : (l.arrive client 1).used.Perm (l.latest client :: l.used) := by
        rw [used, arrive, List.append_assoc]
        exact List.perm_middle
      refine ⟨hwired, ?_, hmail, hperm.nodup_iff.mpr (List.nodup_cons.mpr ⟨hfresh, hp.used_nodup⟩),
        ?_⟩
      · rw [hqueued]
        exact List.rel_append hp.letters (.cons hcovers .nil)
      · intro j hj
        rcases List.mem_cons.mp (hperm.mem_iff.mp hj) with rfl | hj
        · exact hcovers.lt
        · exact hp.used_lt j hj

/-- A delivery that is not for the login service brings no letter. -/
theorem Posts.adds_nothing (hp : l.Posts repositories loginBox r)
    (h : Router.Adds mail r todo r' todo')
    (hvouched : ∀ account, mail.payload = .authenticated account →
      l.Vouches repositories mail.client account)
    (hnot : loginBox ∉ todo) : l.Posts repositories loginBox r' := by
  obtain ⟨-, hcount⟩ := h.arrived loginBox
  rw [List.count_eq_zero_of_not_mem hnot] at hcount
  have hadded := hp.adds h mail.client hvouched fun hm => absurd hm hnot
  rw [show r'.backlog loginBox - r.backlog loginBox = 0 by omega, arrive_zero] at hadded
  exact hadded

/-- The consumer of another mailbox takes a mail. -/
theorem Posts.receive {box : MailboxId} (hp : l.Posts repositories loginBox r)
    (h : r.receive box = (.mail mail, r')) (hne : loginBox ≠ box) :
    l.Posts repositories loginBox r' := by
  obtain ⟨-, hothers, htopics⟩ := Router.queued_of_receive h
  exact hp.subset (hp.wired.of_eq htopics) (hothers _ hne) fun _ _ => Router.mem_of_receive h

/-- The letter that the login service takes is the first of the ledger. -/
theorem Posts.first (hp : l.Posts repositories loginBox r)
    (h : r.receive loginBox = (.mail mail, r')) :
    ∃ k rest, l.letters = k :: rest ∧ l.Covers mail k ∧
      List.Forall₂ l.Covers (r'.queued loginBox) rest := by
  have hletters := hp.letters
  rw [(Router.queued_of_receive h).1] at hletters
  cases hnumbers : l.letters with
  | nil =>
      rw [hnumbers] at hletters
      cases hletters
  | cons k rest =>
      rw [hnumbers] at hletters
      obtain ⟨hcovers, hrest⟩ := List.forall₂_cons.mp hletters
      exact ⟨k, rest, rfl, hcovers, hrest⟩

/-- A letter that is taken stays used if a request is made for it. -/
theorem used_take_subperm {tickets : List Ticket} (hone : tickets.length ≤ 1) :
    (l.take tickets).used.Subperm l.used := by
  unfold used take
  cases l.letters with
  | nil => simp [List.Subperm.refl]
  | cons k rest =>
      match tickets with
      | [] => simpa using (List.sublist_cons_self k _).subperm
      | [ticket] =>
          let asked := l.asked.map (·.1)
          have hperm : (rest ++ (asked ++ [k])).Perm (k :: (rest ++ asked)) := by
            rw [← List.append_assoc]
            exact List.perm_append_singleton k _
          simpa using hperm.subperm

theorem Posts.take (hp : l.Posts repositories loginBox r)
    (h : r.receive loginBox = (.mail mail, r')) {tickets : List Ticket}
    (hone : tickets.length ≤ 1) : (l.take tickets).Posts repositories loginBox r' := by
  obtain ⟨-, -, htopics⟩ := Router.queued_of_receive h
  obtain ⟨k, rest, hletters, -, hrest⟩ := hp.first h
  have hused := used_take_subperm (l := l) hone
  have hextends := l.extends_take tickets
  refine ⟨hp.wired.of_eq htopics, ?_, ?_, ?_, fun j hj => hp.used_lt j (hused.subset hj)⟩
  · rw [show (l.take tickets).letters = rest by simp [Ledger.take, hletters]]
    exact hrest.imp fun _ _ hm => hm.extends hextends
  · intro box other hm account hpayload
    exact (hp.mail box other (Router.mem_of_receive h hm) account hpayload).extends hextends
  · obtain ⟨some, hperm, hsublist⟩ := hused
    exact hperm.nodup_iff.mp (hsublist.nodup hp.used_nodup)

end Posts

/-! ## Requests -/

/-- Each request was made for a login, with the username and the password that it says. -/
structure Asks (repositories : Nat → Repository) (l : Ledger) (a : Authenticator) : Prop where
  storage_eq : ∃ duration, a.pool.storage = .ofRepositories repositories duration
  logged : a.Logged l.lookups
  tickets_eq : l.asked.map (·.2) = a.requests.map (·.ticket)
  made : ∀ (i k : Nat) (ticket : Ticket), l.asked[i]? = some (k, ticket) → ∃ r job client,
    a.requests[i]? = some r ∧ r.ticket = ticket ∧ a.pool.jobs[ticket]? = some job ∧
      l.Says k client (.login job.username r.password)

section Asks

variable {a a' : Authenticator} {i k : Nat} {ticket : Ticket} {command : Command}

theorem Asks.made_extends (ha : l.Asks repositories a) (h : a.Extends a') (hl : l.Extends l')
    (hasked : l.asked[i]? = some (k, ticket)) : ∃ r job client,
      a'.requests[i]? = some r ∧ r.ticket = ticket ∧ a'.pool.jobs[ticket]? = some job ∧
        l'.Says k client (.login job.username r.password) := by
  obtain ⟨r, job, client, hr, hticket, hjob, hsaid⟩ := ha.made i k ticket hasked
  obtain ⟨r', hr', hticket', hpassword⟩ := h.request i r hr
  obtain ⟨job', hjob', husername⟩ := h.pool.job ticket job hjob
  refine ⟨r', job', client, hr', hticket'.trans hticket, hjob', ?_⟩
  rw [husername, hpassword]
  exact hsaid.extends hl

/-- More is known, but nothing about the requests. -/
theorem Asks.extends (ha : l.Asks repositories a) (h : l.Extends l') (hasked : l'.asked = l.asked)
    (hlookups : l'.lookups = l.lookups) : l'.Asks repositories a := by
  refine ⟨ha.storage_eq, hlookups ▸ ha.logged, hasked ▸ ha.tickets_eq, ?_⟩
  intro i k ticket hi
  exact ha.made_extends (.refl a) h (hasked ▸ hi)

theorem Asks.storage_extends (ha : l.Asks repositories a) (h : a.Extends a') :
    ∃ duration, a'.pool.storage = .ofRepositories repositories duration := by
  obtain ⟨duration, hstorage⟩ := ha.storage_eq
  exact ⟨duration, h.pool.storage_eq.trans hstorage⟩

theorem Asks.step (ha : l.Asks repositories a) (now : Instant) (q : AuthStep) :
    Asks repositories { l with lookups := l.lookups ++ a.logged now q } (a.step now q) := by
  have hextends := Authenticator.extends_step now a q
  have hlogged := ha.logged.step now q
  refine ⟨ha.storage_extends hextends, hlogged, ?_, ?_⟩
  · rw [hlogged.tickets_eq_range, Authenticator.length_step, ← ha.logged.tickets_eq_range]
    exact ha.tickets_eq
  · intro i k ticket hasked
    exact ha.made_extends hextends ⟨List.prefix_rfl, List.prefix_rfl, List.prefix_append ..⟩ hasked

theorem Asks.length_eq (ha : l.Asks repositories a) : l.asked.length = a.requests.length := by
  simpa using congrArg List.length ha.tickets_eq

/-- A letter that no request is made for is taken. -/
theorem Asks.take_nothing (ha : l.Asks repositories a) : (l.take []).Asks repositories a := by
  have hasked : (l.take []).asked = l.asked := by simp [Ledger.take]
  exact ⟨ha.storage_eq, ha.logged, hasked ▸ ha.tickets_eq, hasked ▸ ha.made⟩

/-- A request is made for a letter. -/
theorem Asks.submit {username password : String} {tickets : List Ticket}
    (ha : l.Asks repositories a) (hsaid : l.Says k client (.login username password))
    (hasked : (l.take tickets).asked = l.asked ++ [(k, a.pool.jobs.length)]) :
    (l.take tickets).Asks repositories (a.submit now username password).2 := by
  obtain ⟨r, job, hrequests, hticket, hpassword, hjob, husername⟩ :=
    Authenticator.requests_submit now a username password
  have hextends := Authenticator.extends_submit now a username password
  refine ⟨ha.storage_extends hextends, ha.logged.submit now username password, ?_, ?_⟩
  · rw [hasked, hrequests, List.map_append, List.map_append, ha.tickets_eq]
    simp [hticket]
  · intro i j ticket hentry
    rw [hasked] at hentry
    rcases Nat.lt_or_ge i l.asked.length with hlt | hle
    · refine ha.made_extends hextends (l.extends_take tickets) ?_
      exact (List.getElem?_append_left hlt).symm.trans hentry
    · rw [List.getElem?_append_right hle] at hentry
      obtain ⟨hlt, heq⟩ := List.getElem?_eq_some_iff.mp hentry
      have hi : i - l.asked.length = 0 := Nat.lt_one_iff.mp hlt
      rw [List.getElem_singleton] at heq
      cases heq
      refine ⟨r, job, client, ?_, hticket, hticket ▸ hjob, ?_⟩
      · rw [hrequests, List.getElem?_append_right (ha.length_eq ▸ hle), ← ha.length_eq, hi]
        rfl
      · rw [husername, hpassword]
        exact hsaid

/-- A request that succeeds was made for a login of the client, and its own lookup found the
account. -/
theorem Asks.vouches (ha : l.Asks repositories a) (hasked : l.asked[i]? = some (k, ticket))
    (hsaid : l.Says k client command) (houtcome : a.outcome? i = some (.success account)) :
    l.Vouches repositories client account := by
  obtain ⟨r, job, client', hr, hticket, hjob, hlogin⟩ := ha.made i k ticket hasked
  have hsuccess : r.outcome? = some (.success account) := by
    simpa [Authenticator.outcome?, hr] using houtcome
  obtain ⟨job', hjob', ⟨call, hlookup, hfinding⟩, hpassword⟩ :=
    ha.logged.backed i r hr account hsuccess
  obtain rfl : job' = job := by
    rw [hticket, hjob] at hjob'
    exact (Option.some.inj hjob').symm
  obtain ⟨duration, hstorage⟩ := ha.storage_eq
  have hanswer : Finding.answer (.ok ((repositories call).find? job'.username)) =
      .answer (.ok (some account)) := by
    rw [hstorage] at hfinding
    exact hfinding
  have hfound : (repositories call).find? job'.username = some account :=
    Except.ok.inj (Finding.answer.inj hanswer)
  have husername : account.username = job'.username := by
    simpa using List.find?_some hfound
  rw [← husername] at hlookup hfound hlogin
  rw [hlogin.client_eq hsaid, ← hpassword] at hlogin
  exact ⟨k, ticket, call, hlogin, List.mem_of_getElem? hasked, hticket ▸ hlookup, hfound⟩

end Asks

/-! ## Readers -/

/-- A reader publishes the last packet of its client, which may come to the login service once and
has not come there yet. -/
structure Publishes (l : Ledger) (loginBox : MailboxId) (client : ConnectionId)
    (d : Delivery Inbound) : Prop where
  client_eq : d.mail.client = client
  covers : l.Covers d.mail (l.latest client)
  once : d.todo.count loginBox ≤ 1
  fresh : loginBox ∈ d.todo → l.latest client ∉ l.used

theorem Publishes.not_authenticated {d : Delivery Inbound} (hd : l.Publishes loginBox client d)
    (account : Account) : d.mail.payload ≠ .authenticated account := by
  obtain ⟨command, hpayload, -⟩ := hd.covers
  rw [hpayload]
  nofun

/-- A reader that has just taken a packet publishes it, or nothing. -/
theorem publishes_accept {limits : LineLimits} {r : Router Inbound} {u : Uplink} {p : Wire.Packet}
    {d : Delivery Inbound} (hp : l.Posts repositories loginBox r)
    (h : (u.accept limits now r p).phase = .publishing d) :
    (l.send u.client p).Publishes loginBox u.client d := by
  unfold Uplink.accept Routed.ofPacket at h
  split at h
  · cases h
  · next routed hrouted =>
      split at hrouted
      · next topic command hdecode =>
          cases hrouted
          cases h
          refine ⟨rfl, ⟨command, rfl, says_send hdecode l⟩, ?_, ?_⟩
          · exact Nat.le_trans (hp.wired.count_subscribers topic) (by split <;> simp)
          · intro _ hused
            rw [latest_send_self] at hused
            exact Nat.lt_irrefl _ (hp.used_lt _ hused)
      · split at hrouted
        · cases hrouted
        · cases hrouted
          cases h

/-- The reader of another client takes a packet. -/
theorem Publishes.send {d : Delivery Inbound} {other : ConnectionId}
    (hd : l.Publishes loginBox other d) (hne : other ≠ client) (p : Wire.Packet) :
    (l.send client p).Publishes loginBox other d := by
  have hlatest := latest_send_of_ne hne p l
  refine ⟨hd.client_eq, ?_, hd.once, ?_⟩
  · rw [hlatest]
    exact hd.covers.extends (extends_send client p l)
  · rw [hlatest]
    exact hd.fresh

section Deliveries

variable {d d' : Delivery Inbound} {r r' : Router Inbound}

/-- A reader goes on publishing. -/
theorem Publishes.advance (hd : l.Publishes loginBox client d)
    (h : Router.Adds d.mail r d.todo r' d'.todo) (hmail : d'.mail = d.mail) :
    (l.arrive client (r'.backlog loginBox - r.backlog loginBox)).Publishes loginBox client d' := by
  obtain ⟨-, hcount⟩ := h.arrived loginBox
  have honce := hd.once
  refine ⟨hmail ▸ hd.client_eq, ?_, by omega, ?_⟩
  · rw [hmail]
    exact hd.covers.extends (l.extends_arrive client _)
  · intro hlisted
    have hpos := List.count_pos_iff.mpr hlisted
    rw [show r'.backlog loginBox - r.backlog loginBox = 0 by omega, arrive_zero]
    exact hd.fresh (List.count_pos_iff.mp (by omega))

/-- The reader of another client goes on publishing. -/
theorem Publishes.arrive {other : ConnectionId} (hd : l.Publishes loginBox other d)
    (hd' : l.Publishes loginBox client d') (hne : other ≠ client) (n : Nat) :
    (l.arrive client n).Publishes loginBox other d := by
  obtain ⟨command, -, hsaid⟩ := hd.covers
  obtain ⟨command', -, hsaid'⟩ := hd'.covers
  rw [hd.client_eq] at hsaid
  rw [hd'.client_eq] at hsaid'
  -- A packet has one sender, so the latest packets of two clients are two.
  have hlatest : l.latest other ≠ l.latest client := by
    intro heq
    rw [heq] at hsaid
    exact hne (hsaid.client_eq hsaid')
  refine ⟨hd.client_eq, hd.covers.extends (l.extends_arrive client n), hd.once, ?_⟩
  intro hlisted hused
  simp only [used, Ledger.arrive, List.append_assoc, List.mem_append] at hused
  rcases hused with hm | hm | hm
  · exact hd.fresh hlisted (List.mem_append_left _ hm)
  · exact hlatest (List.eq_of_mem_replicate hm)
  · exact hd.fresh hlisted (List.mem_append_right _ hm)

end Deliveries

/-! ## Logins -/

/-- A login waits for a request of its own client, or announces what was vouched for. -/
def Grounds (repositories : Nat → Repository) (l : Ledger) (loginBox : MailboxId)
    (login : Login) : Prop :=
  match login.stage with
  | .judged outcome => ∀ account, outcome ≠ .success account
  | .authenticating i =>
    ∃ k ticket command, l.asked[i]? = some (k, ticket) ∧ l.Says k login.client command
  | .announcing d => loginBox ∉ d.todo ∧ ∃ account,
    d.mail = ⟨login.client, .authenticated account, none⟩ ∧
      l.Vouches repositories login.client account

section Grounds

variable {login : Login} {a : Authenticator} {hub : Hub}

theorem Grounds.extends (hl : l.Grounds repositories loginBox login) (h : l.Extends l') :
    l'.Grounds repositories loginBox login := by
  obtain ⟨client, stage⟩ := login
  cases stage with
  | judged outcome => exact hl
  | authenticating i =>
      obtain ⟨k, ticket, command, hasked, hsaid⟩ := hl
      exact ⟨k, ticket, command, getElem?_of_prefix h.asked hasked, hsaid.extends h⟩
  | announcing d =>
      obtain ⟨hnot, account, hmail, hvouched⟩ := hl
      exact ⟨hnot, account, hmail, hvouched.extends h⟩

theorem grounds_of_judged {outcome : AuthOutcome} (h : login.stage = .judged outcome)
    (houtcome : ∀ account, outcome ≠ .success account) :
    l.Grounds repositories loginBox login := by
  unfold Grounds
  rw [h]
  exact houtcome

/-- What a login does next keeps the mail in order, and the login too if it goes on. -/
structure GoesOn (repositories : Nat → Repository) (l : Ledger) (loginBox : MailboxId)
    (next : Option Login × Hub) : Prop where
  posts : l.Posts repositories loginBox next.2.router
  grounds : ∀ login, next.1 = some login → l.Grounds repositories loginBox login

theorem Posts.announce {d : Delivery Inbound} (hp : l.Posts repositories loginBox hub.router)
    (hd : l.Grounds repositories loginBox ⟨client, .announcing d⟩) :
    l.GoesOn repositories loginBox (LoginService.announce now hub client d) := by
  obtain ⟨hnot, account, hmail, hvouched⟩ := hd
  have hadds := Delivery.adds_advance now hub.router d
  have hposts : l.Posts repositories loginBox (d.advance now hub.router).1 := by
    refine hp.adds_nothing hadds ?_ hnot
    intro other hpayload
    rw [hmail] at hpayload ⊢
    cases hpayload
    exact hvouched
  have hnot' : loginBox ∉ (d.advance now hub.router).2.todo := by
    obtain ⟨-, hcount⟩ := hadds.arrived loginBox
    rw [List.count_eq_zero_of_not_mem hnot] at hcount
    exact List.count_eq_zero.mp (by omega)
  unfold LoginService.announce
  dsimp only
  split
  · refine ⟨hposts, ?_⟩
    intro login heq
    cases heq
    exact ⟨hnot', account, (Delivery.mail_advance now hub.router d).trans hmail, hvouched⟩
  · split <;> exact ⟨hposts, nofun⟩

theorem Posts.conclude {outcome : AuthOutcome} (hp : l.Posts repositories loginBox hub.router)
    (houtcome : ∀ account, outcome = .success account → l.Vouches repositories client account) :
    l.GoesOn repositories loginBox (LoginService.conclude now hub client outcome) := by
  cases outcome with
  | success account =>
      refine hp.announce ⟨?_, account, rfl, houtcome account rfl⟩
      have hcount := hp.wired.count_subscribers .authenticated
      exact List.count_eq_zero.mp (Nat.le_zero.mp hcount)
  | accountNotFound => exact ⟨hp, nofun⟩
  | passwordMismatch => exact ⟨hp, nofun⟩
  | timedOut => exact ⟨hp, nofun⟩
  | fetchError reason => exact ⟨hp, nofun⟩

theorem Posts.proceed (now : Instant) (hub : Hub) (hp : l.Posts repositories loginBox hub.router)
    (ha : l.Asks repositories a) (hl : l.Grounds repositories loginBox login) :
    l.GoesOn repositories loginBox (LoginService.proceed now a hub login) := by
  obtain ⟨client, stage⟩ := login
  cases stage with
  | judged outcome => exact hp.conclude fun account h => absurd h (hl account)
  | announcing d => exact hp.announce hl
  | authenticating i =>
      obtain ⟨k, ticket, command, hasked, hsaid⟩ := id hl
      unfold LoginService.proceed
      dsimp only
      cases houtcome : a.outcome? i with
      | none =>
          refine ⟨hp, ?_⟩
          intro login heq
          cases heq
          exact hl
      | some outcome =>
          refine hp.conclude ?_
          rintro account rfl
          exact ha.vouches hasked hsaid houtcome

end Grounds

/-! ## The server -/

/-- The bond is that of a client who was vouched for. -/
def Backs (repositories : Nat → Repository) (l : Ledger) (b : Bond) : Prop :=
  ∃ account, account.id = b.account ∧ l.Vouches repositories b.connection account

theorem Backs.extends {b : Bond} (h : l.Extends l') (hb : l.Backs repositories b) :
    l'.Backs repositories b := by
  obtain ⟨account, hid, hvouched⟩ := hb
  exact ⟨account, hid, hvouched.extends h⟩

/-- All that is in a server goes back to the ledger. -/
structure Accounts (repositories : Nat → Repository) (l : Ledger) (s : Server) : Prop where
  boxes_ne : s.loginBox ≠ s.worldBox
  posts : l.Posts repositories s.loginBox s.router
  asks : l.Asks repositories s.login.authenticator
  uplinks : ∀ h ∈ s.handlers, ∀ d, h.uplink.phase = .publishing d →
    l.Publishes s.loginBox h.client d
  logins : ∀ login ∈ s.login.logins, l.Grounds repositories s.loginBox login
  enrolled : s.loop.simulation.Enrolled (l.Backs repositories)

end Ledger

end Realm
