import Realm.Account.Login
import Realm.Proofs.Router.Progress
import Realm.Proofs.Server.Closing

/-!
# What a login comes to

A login waits for its outcome, and one that succeeds waits for a place in the mailbox of the
simulation. Main statements: with one such mailbox, which stays open, the login then either puts one
mail into it and leaves the connections alone, or it leaves the mailboxes alone and tells its client
the reason; and it does not wait for ever.
-/

namespace Realm

/-! ## One client -/

/-- A client is told the reason and disconnected, if it is still registered, and nothing else is
done. -/
structure Connections.Dismisses (client : ConnectionId) (reason : String) (t t' : Connections) :
    Prop where
  registered_eq : t'.registered = t.registered
  told : ∀ k, t.get? client = some k → t'.find? client =
    some (k.useAll [.send (Event.loginRejected reason).toPacket, .flush, .close])
  left : t.get? client = none → t' = t
  others : ∀ id, id ≠ client → t'.find? id = t.find? id

theorem LoginService.dismisses_reject (t : Connections) (client : ConnectionId) (reason : String) :
    t.Dismisses client reason (reject t client reason) := by
  let p := (Event.loginRejected reason).toPacket
  have hid : ∀ k : Connection, (k.dismiss p).id = k.id :=
    fun k => congrArg Prod.fst (k.label_dismiss p)
  unfold reject
  cases hk : t.get? client with
  | none =>
      refine ⟨rfl, ?_, fun _ => rfl, fun _ _ => rfl⟩
      intro k h
      cases hk.symm.trans h
  | some k =>
      refine ⟨rfl, ?_, ?_, ?_⟩
      · intro k' h
        cases hk.symm.trans h
        exact Connections.find?_dismiss p (Connections.find?_of_get? hk)
      · intro h
        cases hk.symm.trans h
      · intro id hne
        rw [Connections.find?_modify fun k _ => hid k, if_neg hne]

/-! ## One login -/

def Login.outcome? (a : Authenticator) (login : Login) : Option AuthOutcome :=
  match login.stage with
  | .judged outcome => some outcome
  | .authenticating request => a.outcome? request
  | .announcing d =>
    match d.mail.payload with
    | .authenticated account => some (.success account)
    | .command _ => none

/-- What the client is told if the login does not get through to the simulation. -/
def AuthOutcome.reason (outcome : AuthOutcome) : String :=
  outcome.rejectionReason.getD internalError

/-- A login that is announced waits at one mailbox, with the mail that says so. -/
def Login.Waits (box : MailboxId) (login : Login) : Prop :=
  ∀ d, login.stage = .announcing d →
    d.Seeks box ∧ ∃ account, d.mail = ⟨login.client, .authenticated account, none⟩

namespace LoginService

variable {box : MailboxId} {a : Authenticator} {hub : Hub} {login : Login} {now : Instant}
  {client : ConnectionId} {account : Account} {outcome : AuthOutcome} {d : Delivery Inbound}

/-- What a login does next, `outcome` being what it is known to come to. It waits for that, or for a
place in the mailbox, and nothing changes; or it ends, and one mail is put into the mailbox or the
client is turned away. -/
inductive Concludes (box : MailboxId) (client : ConnectionId) (outcome : Option AuthOutcome)
    (hub : Hub) : Option Login × Hub → Prop
  | waits (login : Login) (hub' : Hub) (client_eq : login.client = client)
      (reason : ∀ found, outcome = some found → ∃ account, found = .success account)
      (still : login.Waits box) (posted : Router.Posted box [] hub.router hub'.router)
      (connections_eq : hub'.connections = hub.connections) :
      Concludes box client outcome hub (some login, hub')
  | announced (account : Account) (hub' : Hub) (known : outcome = some (.success account))
      (posted : Router.Posted box [⟨client, .authenticated account, none⟩] hub.router hub'.router)
      (connections_eq : hub'.connections = hub.connections) :
      Concludes box client outcome hub (none, hub')
  | rejected (found : AuthOutcome) (hub' : Hub) (known : outcome = some found)
      (posted : Router.Posted box [] hub.router hub'.router)
      (dismisses : hub.connections.Dismisses client found.reason hub'.connections) :
      Concludes box client outcome hub (none, hub')

theorem concludes_announce (hd : d.Seeks box)
    (hmail : d.mail = ⟨client, .authenticated account, none⟩)
    (hopen : hub.router.refuses box = false) (now : Instant) :
    Concludes box client (some (.success account)) hub (announce now hub client d) := by
  obtain ⟨hposted, hstill⟩ := hd.advance hopen now
  unfold announce
  dsimp only
  split
  · next hdone =>
      have hleft : (d.advance now hub.router).2.isDone = false := by simpa using hdone
      rw [Delivery.succeeded, hleft] at hposted
      refine .waits _ _ rfl (fun _ h => ⟨account, (Option.some.inj h).symm⟩) ?_ hposted rfl
      rintro _ ⟨⟩
      exact ⟨hstill hleft, account, (Delivery.mail_advance now hub.router d).trans hmail⟩
  · split
    · next hsucceeded =>
        rw [if_pos hsucceeded, hmail] at hposted
        exact .announced account _ rfl hposted rfl
    · next hfailed =>
        rw [if_neg hfailed] at hposted
        exact .rejected (.success account) _ rfl hposted (dismisses_reject ..)

theorem concludes_conclude (hsole : hub.router.Sole .authenticated box) (now : Instant)
    (client : ConnectionId) (outcome : AuthOutcome) :
    Concludes box client (some outcome) hub (conclude now hub client outcome) := by
  cases outcome with
  | success account => exact concludes_announce (hsole.seeks _ _) rfl hsole.refuses_eq now
  | _ => exact .rejected _ _ rfl (.refl box hub.router) (dismisses_reject ..)

theorem concludes_proceed (hsole : hub.router.Sole .authenticated box) (hlogin : login.Waits box)
    (now : Instant) (a : Authenticator) :
    Concludes box login.client (login.outcome? a) hub (proceed now a hub login) := by
  unfold proceed Login.outcome?
  cases hstage : login.stage with
  | judged outcome => exact concludes_conclude hsole now login.client outcome
  | announcing d =>
      obtain ⟨hseeks, account, hmail⟩ := hlogin d hstage
      have hknown := concludes_announce hseeks hmail hsole.refuses_eq now
      dsimp only
      rw [hmail]
      exact hknown
  | authenticating request =>
      dsimp only
      cases houtcome : a.outcome? request with
      | none => exact .waits login hub rfl nofun hlogin (.refl box hub.router) rfl
      | some outcome => exact concludes_conclude hsole now login.client outcome

/-- A login that goes on is the same, or announces its client. -/
theorem proceed_eq_some {login' : Login} {hub' : Hub}
    (h : proceed now a hub login = (some login', hub')) :
    login'.client = login.client ∧ (login' = login ∨ ∃ d, login'.stage = .announcing d) := by
  have hannounce : ∀ d, announce now hub login.client d = (some login', hub') →
      login'.client = login.client ∧ ∃ d, login'.stage = .announcing d := by
    intro d hd
    unfold announce at hd
    dsimp only at hd
    split at hd
    · cases hd
      exact ⟨rfl, _, rfl⟩
    · split at hd <;> cases hd
  have hconclude : ∀ outcome, conclude now hub login.client outcome = (some login', hub') →
      login'.client = login.client ∧ ∃ d, login'.stage = .announcing d := by
    intro outcome houtcome
    cases outcome with
    | success account => exact hannounce _ houtcome
    | _ => cases houtcome
  unfold proceed at h
  split at h
  · exact (hconclude _ h).imp_right .inr
  · exact (hannounce _ h).imp_right .inr
  · split at h
    · cases h
      exact ⟨rfl, .inl rfl⟩
    · exact (hconclude _ h).imp_right .inr

/-- When it is time, a login that is announced ends or has less to wait for. -/
theorem announce_late (hdue : ∀ t, d.waitUntil = some t → t ≤ now) (hub : Hub)
    (client : ConnectionId) :
    (announce now hub client d).1 = none ∨ ∃ d' : Delivery Inbound,
      (announce now hub client d).1 = some ⟨client, .announcing d'⟩ ∧ d'.waits < d.waits := by
  unfold announce
  dsimp only
  split
  · next hdone =>
      refine .inr ⟨_, rfl, (Delivery.waits_advance hub.router hdue).resolve_left fun hd => ?_⟩
      simp [hd] at hdone
  · split <;> exact .inl rfl

/-- A login whose outcome is known ends or is announced. -/
theorem conclude_cases (now : Instant) (hub : Hub) (client : ConnectionId) (outcome : AuthOutcome) :
    (conclude now hub client outcome).1 = none ∨
      ∃ d, (conclude now hub client outcome).1 = some ⟨client, .announcing d⟩ := by
  cases outcome with
  | success account =>
      unfold conclude announce
      dsimp only
      split
      · exact .inr ⟨_, rfl⟩
      · split <;> exact .inl rfl
  | _ => exact .inl rfl

end LoginService

end Realm
