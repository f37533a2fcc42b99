import Realm.Proofs.Account.Reception

/-!
# The fate of each login mail

Main statement: whatever happens between the steps of the login service and of its logins, permits
and pending clients fit the logins under way, and each login mail is ignored, turned away or
concluded, once. How a login is concluded is told for a simulation with one mailbox, which stays
open. No login stays under way for ever.
-/

namespace Realm

namespace Reception

variable {now : Instant} {r : Reception} {n number limit : Nat} {box : MailboxId}
  {client : ConnectionId} {login : Login} {d : Delivery Inbound} {outcome : AuthOutcome}
  {a : Authenticator} {hub : Hub} {maxPending : Nat} {steps : List (Instant × ReceptionStep)}

theorem step_proceed (hlogin : r.service.logins[n]? = some login) (now : Instant) :
    r.step now (.proceed n) = r.after n login.client
      (LoginService.proceed now r.service.authenticator r.hub login) := by
  simp only [step, hlogin]

/-- What became of a mail stays so. -/
theorem fates_step (r : Reception) (now : Instant) (s : ReceptionStep) :
    r.fates <+: (r.step now s).fates := by
  cases s with
  | letter mail =>
      have htakes := takes_letter now r mail
      generalize r.step now (.letter mail) = r' at htakes ⊢
      cases htakes with
      | ignored | turnedAway => exact List.prefix_append ..
      | other | begins => exact List.prefix_rfl
  | proceed n =>
      cases hlogin : r.service.logins[n]? with
      | none => simp only [step, hlogin, List.prefix_rfl]
      | some login =>
          rw [step_proceed hlogin]
          rcases LoginService.proceed now r.service.authenticator r.hub login with ⟨_ | login', hub⟩
          · exact List.prefix_append ..
          · exact List.prefix_rfl
  | clear n =>
      unfold step
      dsimp only
      split <;> exact List.prefix_rfl
  | release =>
      unfold step
      dsimp only
      split <;> exact List.prefix_rfl
  | _ => exact List.prefix_rfl

theorem fates_run (r : Reception) (steps : List (Instant × ReceptionStep)) :
    r.fates <+: (r.run steps).fates := by
  induction steps generalizing r with
  | nil => exact List.prefix_rfl
  | cons s steps ih => exact (r.fates_step s.1 s.2).trans (ih _)

/-! ## The logins under way -/

/-- What a step leaves true of every login, if it is true of a login that begins or goes on. -/
theorem forall_logins_step {P : Login → Prop} (h : ∀ login ∈ r.service.logins, P login)
    (now : Instant) (s : ReceptionStep)
    (hjudged : ∀ client, P ⟨client, .judged .timedOut⟩)
    (hasked : ∀ client, (r.step now s).service.authenticator.requests.length =
      r.service.authenticator.requests.length + 1 →
        P ⟨client, .authenticating r.service.authenticator.requests.length⟩)
    (hproceed : ∀ login ∈ r.service.logins, ∀ login' hub',
      LoginService.proceed now r.service.authenticator r.hub login = (some login', hub') →
      P login') : ∀ login ∈ (r.step now s).service.logins, P login := by
  cases s with
  | letter mail =>
      have htakes := takes_letter now r mail
      generalize r.step now (.letter mail) = r' at htakes hasked ⊢
      cases htakes with
      | begins username password stage authenticator _ _ _ hstage hauthenticator =>
          intro login hm
          rcases List.mem_append.mp hm with hm | hm
          · exact h login hm
          · rw [List.mem_singleton.mp hm, hstage]
            split
            · exact hjudged _
            · next hexpired =>
                refine hasked _ ?_
                rw [hauthenticator, if_neg hexpired]
                simp [Authenticator.submit]
      | _ => exact h
  | proceed n =>
      cases hlogin : r.service.logins[n]? with
      | none => simpa only [step, hlogin] using h
      | some login =>
          rw [step_proceed hlogin]
          cases hnext : LoginService.proceed now r.service.authenticator r.hub login with
          | mk next hub' =>
              intro other hm
              cases next with
              | none => exact h other (List.mem_of_mem_eraseIdx hm)
              | some login' =>
                  rcases List.mem_or_eq_of_mem_set hm with hm | rfl
                  · exact h other hm
                  · exact hproceed login (List.mem_of_getElem? hlogin) _ hub' hnext
  | clear n =>
      unfold step
      dsimp only
      split <;> exact h
  | release =>
      unfold step
      dsimp only
      split <;> exact h
  | _ => exact h

/-- Every login that waits for an outcome has made its request. -/
def Asked (r : Reception) : Prop := ∀ login ∈ r.service.logins, ∀ request,
  login.stage = .authenticating request → request < r.service.authenticator.requests.length

theorem Asked.step (h : r.Asked) (now : Instant) (s : ReceptionStep) : (r.step now s).Asked := by
  have hle : r.service.authenticator.requests.length ≤
      (r.step now s).service.authenticator.requests.length := by
    cases s with
    | letter mail =>
        have htakes := takes_letter now r mail
        generalize r.step now (.letter mail) = r' at htakes ⊢
        cases htakes with
        | begins _ _ _ authenticator _ _ _ _ hauthenticator =>
            rw [hauthenticator]
            split <;> simp [Authenticator.submit]
        | _ => exact Nat.le_refl _
    | inquiry q => exact Nat.le_of_eq (Authenticator.length_step now _ q).symm
    | proceed n =>
        cases hlogin : r.service.logins[n]? with
        | none => simp only [Reception.step, hlogin, Nat.le_refl]
        | some login =>
            rw [step_proceed hlogin]
            cases LoginService.proceed now r.service.authenticator r.hub login with
            | mk next hub => cases next <;> exact Nat.le_refl _
    | clear n =>
        unfold Reception.step
        dsimp only
        split <;> exact Nat.le_refl _
    | release =>
        unfold Reception.step
        dsimp only
        split <;> exact Nat.le_refl _
    | others hub => exact Nat.le_refl _
  refine forall_logins_step (fun login hm request hstage => ?_) now s ?_ ?_ ?_
  · exact Nat.lt_of_lt_of_le (h login hm request hstage) hle
  · intro client request hstage
    cases hstage
  · intro client hlength request hstage
    cases hstage
    omega
  · intro login hm login' hub' hnext request hstage
    obtain ⟨-, rfl | ⟨d, hd⟩⟩ := LoginService.proceed_eq_some hnext
    · exact Nat.lt_of_lt_of_le (h login' hm request hstage) hle
    · rw [hd] at hstage
      cases hstage

theorem Asked.run (h : r.Asked) (steps : List (Instant × ReceptionStep)) : (r.run steps).Asked := by
  induction steps generalizing r with
  | nil => exact h
  | cons s steps ih => exact ih (h.step s.1 s.2)

/-- Every login that is announced waits at the one mailbox of the simulation. -/
theorem waits_step (h : ∀ login ∈ r.service.logins, login.Waits box)
    (hsole : r.hub.router.Sole .authenticated box) (now : Instant) (s : ReceptionStep) :
    ∀ login ∈ (r.step now s).service.logins, login.Waits box := by
  refine forall_logins_step h now s (fun _ => nofun) (fun _ _ => nofun) ?_
  intro login hm login' hub' hnext
  have hconcludes := LoginService.concludes_proceed hsole (h login hm) now r.service.authenticator
  rw [hnext] at hconcludes
  cases hconcludes with
  | waits _ _ _ _ hstill => exact hstill

theorem waits_run (h : ∀ login ∈ r.service.logins, login.Waits box)
    (hsole : ∀ front, front <+: steps → (r.run front).hub.router.Sole .authenticated box) :
    ∀ login ∈ (r.run steps).service.logins, login.Waits box := by
  induction steps generalizing r with
  | nil => exact h
  | cons s steps ih =>
      refine ih (waits_step h (hsole [] List.nil_prefix) s.1 s.2) fun front hfront => ?_
      exact hsole (s :: front) ((List.cons_prefix_cons).mpr ⟨rfl, hfront⟩)

/-! ## Going on -/

/-- What a login does by itself from an instant on: it goes on, or its request waits no longer. -/
def Own (n : Nat) : Instant → List (Instant × ReceptionStep) → Prop
  | _, [] => True
  | now, (time, s) :: later =>
    now ≤ time ∧ (s = .proceed n ∨ ∃ request, s = .inquiry (.expire request)) ∧ Own n time later

/-- A login that ends has its fate. -/
theorem mem_fates_of_none (hlogin : r.service.logins[n]? = some login)
    (hnumber : r.numbers[n]? = some number)
    (hnone : (LoginService.proceed now r.service.authenticator r.hub login).1 = none) :
    (number, Fate.concluded) ∈ (r.step now (.proceed n)).fates := by
  rw [step_proceed hlogin]
  cases hnext : LoginService.proceed now r.service.authenticator r.hub login with
  | mk next hub =>
      rw [hnext] at hnone
      cases hnone
      simp [after, hnumber]

/-- A login that goes on stands where it stood. -/
theorem getElem?_of_some {login' : Login} (hlogin : r.service.logins[n]? = some login)
    (hsome : (LoginService.proceed now r.service.authenticator r.hub login).1 = some login') :
    (r.step now (.proceed n)).service.logins[n]? = some login' ∧
      (r.step now (.proceed n)).numbers = r.numbers := by
  obtain ⟨hlt, -⟩ := List.getElem?_eq_some_iff.mp hlogin
  rw [step_proceed hlogin]
  cases hnext : LoginService.proceed now r.service.authenticator r.hub login with
  | mk next hub =>
      rw [hnext] at hsome
      cases hsome
      exact ⟨List.getElem?_set_self hlt, rfl⟩

theorem exists_own_of_announcing (now : Instant)
    (hlogin : r.service.logins[n]? = some ⟨client, .announcing d⟩)
    (hnumber : r.numbers[n]? = some number) :
    ∃ later, Own n now later ∧ (number, Fate.concluded) ∈ (r.run later).fates := by
  induction hw : d.waits using Nat.strongRecOn generalizing r d now with
  | ind w ih =>
      obtain ⟨time, hnow, hdue⟩ := exists_late now d.waitUntil
      rcases LoginService.announce_late hdue r.hub client with hnone | ⟨d', hsome, hlt⟩
      · exact ⟨[(time, .proceed n)], ⟨hnow, .inl rfl, trivial⟩,
          mem_fates_of_none hlogin hnumber hnone⟩
      · obtain ⟨hlogin', hnumbers⟩ := getElem?_of_some hlogin hsome
        obtain ⟨later, hown, hmem⟩ := ih d'.waits (hw ▸ hlt) time hlogin' (hnumbers ▸ hnumber) rfl
        exact ⟨(time, .proceed n) :: later, ⟨hnow, .inl rfl, hown⟩, hmem⟩

theorem exists_own_of_concluding (hlogin : r.service.logins[n]? = some login)
    (hnumber : r.numbers[n]? = some number)
    (hproceed : LoginService.proceed now r.service.authenticator r.hub login =
      LoginService.conclude now r.hub login.client outcome) :
    ∃ later, Own n now later ∧ (number, Fate.concluded) ∈ (r.run later).fates := by
  have hcases := LoginService.conclude_cases now r.hub login.client outcome
  rw [← hproceed] at hcases
  rcases hcases with hnone | ⟨d, hsome⟩
  · exact ⟨[(now, .proceed n)], ⟨Nat.le_refl _, .inl rfl, trivial⟩,
      mem_fates_of_none hlogin hnumber hnone⟩
  · obtain ⟨hlogin', hnumbers⟩ := getElem?_of_some hlogin hsome
    obtain ⟨later, hown, hmem⟩ := exists_own_of_announcing now hlogin' (hnumbers ▸ hnumber)
    exact ⟨(now, .proceed n) :: later, ⟨Nat.le_refl _, .inl rfl, hown⟩, hmem⟩

/-- Every request has an outcome when its time is over. -/
theorem exists_outcome_expire (a : Authenticator) (now : Instant) {request : Nat}
    (h : request < a.requests.length) : ∃ time outcome, now ≤ time ∧
      (a.step time (.expire request)).outcome? request = some outcome := by
  obtain ⟨q, hq⟩ : ∃ q, a.requests[request]? = some q := ⟨_, List.getElem?_eq_getElem h⟩
  obtain ⟨time, hnow, hdue⟩ := exists_late now q.phase.due?
  have hover : ∃ outcome, (q.expire time).outcome? = some outcome := by
    obtain ⟨ticket, password, phase⟩ := q
    cases phase with
    | concluded outcome t => exact ⟨outcome, rfl⟩
    | queueing t | fetching t =>
        refine ⟨.timedOut, ?_⟩
        simp [AuthRequest.expire, AuthPhase.due?, AuthRequest.conclude, AuthRequest.outcome?,
          hdue t rfl]
  obtain ⟨outcome, houtcome⟩ := hover
  refine ⟨time, outcome, hnow, ?_⟩
  simp only [Authenticator.outcome?, Authenticator.step, hq]
  rw [List.getElem?_set_self h]
  exact houtcome

/-- A login under way can go on until it is concluded. -/
theorem exists_own (hk : r.Kept limit) (hasked : r.Asked) (hnumber : r.numbers[n]? = some number)
    (now : Instant) : ∃ later, Own n now later ∧
      (number, Fate.concluded) ∈ (r.run later).fates := by
  obtain ⟨hlt, -⟩ := List.getElem?_eq_some_iff.mp hnumber
  rw [hk.numbers_length] at hlt
  obtain ⟨login, hlogin⟩ : ∃ login, r.service.logins[n]? = some login :=
    ⟨_, List.getElem?_eq_getElem hlt⟩
  obtain ⟨client, stage⟩ := login
  cases stage with
  | judged outcome => exact exists_own_of_concluding hlogin hnumber rfl
  | announcing d => exact exists_own_of_announcing now hlogin hnumber
  | authenticating request =>
      obtain ⟨time, outcome, htime, houtcome⟩ := exists_outcome_expire r.service.authenticator now
        (hasked _ (List.mem_of_getElem? hlogin) request rfl)
      let r' := r.step time (.inquiry (.expire request))
      have hlogin' : r'.service.logins[n]? = some ⟨client, .authenticating request⟩ := hlogin
      have hproceed : LoginService.proceed time r'.service.authenticator r'.hub
          ⟨client, .authenticating request⟩ =
          LoginService.conclude time r'.hub client outcome := by
        simp only [LoginService.proceed]
        rw [show r'.service.authenticator.outcome? request = some outcome from houtcome]
      obtain ⟨later, hown, hmem⟩ := exists_own_of_concluding hlogin' hnumber hproceed
      exact ⟨(time, .inquiry (.expire request)) :: later, ⟨htime, .inr ⟨request, rfl⟩, hown⟩, hmem⟩

/-! ## The server -/

/-- No login is all but over, as between the acts of a server. -/
structure Serves (r : Reception) (s : Server) : Prop where
  service_eq : r.service = s.login
  hub_eq : r.hub = s.hub
  concluded_eq : r.concluded = []
  leaving_eq : r.leaving = 0

theorem Serves.others {s s' : Server} (h : r.Serves s) (hlogin : s'.login = s.login)
    (now : Instant) : ∃ more : List ReceptionStep, (r.run (more.map (Prod.mk now))).Serves s' :=
  ⟨[.others s'.hub], h.service_eq.trans hlogin.symm, rfl, h.concluded_eq, h.leaving_eq⟩

theorem Serves.taking {s : Server} (h : r.Serves s) (now : Instant) :
    ∃ more : List ReceptionStep, (r.run (more.map (Prod.mk now))).Serves (s.act now .taking) := by
  by_cases hmail : ∃ mail, (s.router.receive s.loginBox).1 = .mail mail
  · obtain ⟨mail, hmail⟩ := hmail
    have hreceive : s.hub.router.receive s.loginBox =
        (.mail mail, (s.router.receive s.loginBox).2) := Prod.ext hmail rfl
    let hub : Hub := { s.hub with router := (s.router.receive s.loginBox).2 }
    have htake : LoginService.takeAll now s.loginBox 1 s.login s.hub = s.login.take now hub mail :=
      LoginService.takeAll_of_mail hreceive 0
    refine ⟨[.others hub, .letter mail], ?_⟩
    rw [Server.act_taking, htake, ← h.service_eq]
    have hnote : ((r.step now (.others hub)).note mail).concluded = r.concluded ∧
        ((r.step now (.others hub)).note mail).leaving = r.leaving := by
      unfold note
      split
      · split
        · exact ⟨rfl, rfl⟩
        · split <;> exact ⟨rfl, rfl⟩
      · exact ⟨rfl, rfl⟩
    exact ⟨rfl, rfl, hnote.1.trans h.concluded_eq, hnote.2.trans h.leaving_eq⟩
  · have hnone := not_exists.mp hmail
    have htake : LoginService.takeAll now s.loginBox 1 s.login s.hub = (s.login, s.hub) :=
      LoginService.takeAll_of_none hnone 1
    refine h.others ?_ now
    rw [Server.act_taking, htake]

theorem Serves.proceeding {s : Server} (h : r.Serves s) (now : Instant) (n : Nat) :
    ∃ more : List ReceptionStep,
      (r.run (more.map (Prod.mk now))).Serves (s.act now (.proceeding n)) := by
  cases hlogin : s.login.logins[n]? with
  | none =>
      refine h.others ?_ now
      simp only [Server.act, LoginService.proceedAt, hlogin]
  | some login =>
      obtain ⟨hservice, hhub, hconcluded, hleaving⟩ := h
      have hlogin' : r.service.logins[n]? = some login := hservice ▸ hlogin
      cases hnext : LoginService.proceed now s.login.authenticator s.hub login with
      | mk next hub =>
          have hproceed : r.step now (.proceed n) = r.after n login.client (next, hub) := by
            rw [step_proceed hlogin', hservice, hhub, hnext]
          cases next with
          | some login' =>
              have hact : s.act now (.proceeding n) = { s.withHub hub with
                  login := { s.login with logins := s.login.logins.set n login' } } := by
                simp only [Server.act, LoginService.proceedAt, hlogin, hnext]
              refine ⟨[.proceed n], ?_⟩
              show (r.step now (.proceed n)).Serves _
              rw [hproceed, hact, ← hservice]
              exact ⟨rfl, rfl, hconcluded, hleaving⟩
          | none =>
              have hact : s.act now (.proceeding n) = { s.withHub hub with
                  login := { s.login with
                    permits := s.login.permits + 1
                    pending := s.login.pending.erase login.client
                    logins := s.login.logins.eraseIdx n } } := by
                simp only [Server.act, LoginService.proceedAt, hlogin, hnext]
              refine ⟨[.proceed n, .clear 0, .release], ?_⟩
              show (((r.step now (.proceed n)).step now (.clear 0)).step now .release).Serves _
              rw [hproceed, hact, ← hservice]
              refine ⟨?_, ?_, ?_, ?_⟩ <;> simp [step, after, hconcluded, hleaving]
              rfl

theorem login_handle (s : Server) (client : ConnectionId) (f : Handler → Hub → Handler × Hub) :
    (s.handle client f).login = s.login := by
  unfold Server.handle
  split <;> rfl

/-- What a server does on behalf of its logins are such steps. -/
theorem Serves.act {s : Server} (h : r.Serves s) (now : Instant) (e : Act) :
    ∃ more : List ReceptionStep, (r.run (more.map (Prod.mk now))).Serves (s.act now e) := by
  have hothers : (s.act now e).login = s.login →
      ∃ more : List ReceptionStep, (r.run (more.map (Prod.mk now))).Serves (s.act now e) :=
    fun hlogin => h.others hlogin now
  cases e with
  | taking => exact h.taking now
  | proceeding n => exact h.proceeding now n
  | inquiry q =>
      refine ⟨[.inquiry q], ?_, h.hub_eq, h.concluded_eq, h.leaving_eq⟩
      show { r.service with authenticator := r.service.authenticator.step now q } = _
      rw [h.service_eq]
      rfl
  | reading client _ | leaving client | writing client | removal client =>
      exact hothers (login_handle ..)
  | arrival address | beginning m =>
      refine hothers ?_
      unfold Server.act Server.step
      dsimp only
      split <;> rfl
  | _ => exact hothers rfl

/-! ## The main statement -/

/-- What holds of a reception that began with so many permits. -/
structure Receives (limit : Nat) (box : MailboxId) (first : Reception)
    (steps : List (Instant × ReceptionStep)) (r : Reception) : Prop where
  /-- Each permit is free or held by one login. -/
  permits_eq : r.service.permits + r.service.logins.length + r.concluded.length + r.leaving = limit
  logins_le : r.service.logins.length ≤ limit
  /-- Those who are pending are the clients of the logins that are not over, one login for each. -/
  pending_perm : r.service.pending.Perm (r.service.logins.map (·.client) ++ r.concluded)
  clients_nodup : (r.service.logins.map (·.client) ++ r.concluded).Nodup
  /-- Each login mail so far has one fate, or its login is under way, -/
  fates_perm : (r.fates.map (·.1) ++ r.numbers).Perm (List.range r.taken)
  numbers_length : r.numbers.length = r.service.logins.length
  /-- and a fate is never taken back. -/
  fates_run : ∀ later, r.fates <+: (r.run later).fates
  /-- What becomes of the next mail depends on who is pending and on the permits. -/
  takes : ∀ now mail, Takes now mail r (r.step now (.letter mail))
  /-- With one mailbox that has been open so far, a login either tells it or tells its client. -/
  concludes : (∀ front, front <+: steps →
      (first.run front).hub.router.Sole .authenticated box) →
    ∀ now n login, r.service.logins[n]? = some login → ∃ next,
      LoginService.Concludes box login.client (login.outcome? r.service.authenticator) r.hub next ∧
        r.step now (.proceed n) = r.after n login.client next
  /-- A login under way can always go on until it is concluded. -/
  ends : ∀ now n number, r.numbers[n]? = some number → ∃ later, Own n now later ∧
    (number, Fate.concluded) ∈ (r.run later).fates
  /-- Whatever a server does next is such steps. -/
  act : ∀ s, r.Serves s → ∀ now e, ∃ more : List ReceptionStep,
    (r.run (more.map (Prod.mk now))).Serves (s.act now e)

/-- Whatever happens, the accounts of the login service are in order. -/
theorem start_receives (a : Authenticator) (maxPending : Nat) (hub : Hub) (box : MailboxId)
    (steps : List (Instant × ReceptionStep)) :
    let first := start a maxPending hub
    Receives (max 1 maxPending) box first steps (first.run steps) := by
  intro first
  have hkept : (first.run steps).Kept (max 1 maxPending) :=
    (kept_start a maxPending hub).run steps
  have hasked : (first.run steps).Asked := Asked.run (fun _ hm => absurd hm List.not_mem_nil) steps
  have hle := hkept.permits_eq
  refine ⟨hkept.permits_eq, by omega, hkept.pending_perm,
    hkept.pending_perm.nodup_iff.mp hkept.pending_nodup, hkept.fates_perm, hkept.numbers_length,
    fates_run _, fun now mail => takes_letter now _ mail, ?_,
    fun now n number hnumber => exists_own hkept hasked hnumber now,
    fun s hs now e => hs.act now e⟩
  intro hsole now n login hlogin
  have hwaits := waits_run (fun _ hm => absurd hm List.not_mem_nil) hsole login
    (List.mem_of_getElem? hlogin)
  exact ⟨_, LoginService.concludes_proceed (hsole steps List.prefix_rfl) hwaits now _,
    step_proceed hlogin now⟩

/-- With one permit, the second login of a client is ignored and that of another one turned away.
The first has expired, which ends it as soon as it goes on. -/
example :
    let router := ((Router.new ⟨.ofMillis 10, 1⟩).subscribe .authenticated).2
    let storage : Storage := fun _ _ => ⟨none, .crash⟩
    let a := Authenticator.start ⟨.ofMillis 10, .ofMillis 10⟩ (.start storage 1 1)
    let mail (client : ConnectionId) : Mail Inbound := ⟨client, .command (.login "a" "b"), some 5⟩
    let steps : List (Instant × ReceptionStep) :=
      [(5, .letter (mail 1)), (5, .letter (mail 1)), (5, .letter (mail 2)), (6, .proceed 0)]
    let r := (start a 1 ⟨router, .empty⟩).run steps
    r.fates = [(1, .ignored), (2, .turnedAway), (0, .concluded)] ∧ r.service.pending = [1] ∧
      r.hub.router.subscribers .authenticated = [1] ∧ r.hub.router.refuses 1 = false := by
  decide +kernel

end Reception

end Realm
