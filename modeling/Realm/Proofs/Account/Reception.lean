import Mathlib.Data.List.Perm.Basic
import Realm.Proofs.Account.Answer
import Realm.Proofs.Account.Conclusion
import Realm.Proofs.Server.Act

/-!
# The login service and its logins

The service takes mail while the logins that it began go on by themselves. When a login is
concluded, its client stays pending for a while, and the permit is held for a while longer. Here
each of these is one step, and in between anything may happen to the mailboxes and connections.

Main statement: permits and pending clients always fit the logins under way, and each login mail has
one fate. What becomes of the mails is kept along the run.
-/

namespace Realm

/-- What becomes of a login mail. -/
inductive Fate where
  | ignored
  | turnedAway
  | concluded
  deriving DecidableEq, Repr

/-- The login service and its logins, some of which are all but over. -/
structure Reception where
  service : LoginService
  hub : Hub
  /-- The clients whose logins are concluded, but that are still pending. -/
  concluded : List ConnectionId
  /-- The number of logins that are over but for their permits. -/
  leaving : Nat
  /-- The number of login mails so far. -/
  taken : Nat
  /-- The mails that the logins under way came of, by their numbers. -/
  numbers : List Nat
  /-- What became of the other mails. -/
  fates : List (Nat × Fate)

inductive ReceptionStep where
  /-- The service takes one piece of mail. -/
  | letter (mail : Mail Inbound)
  | inquiry (q : AuthStep)
  /-- The `n`-th login does what it can. -/
  | proceed (n : Nat)
  /-- The client of a concluded login is pending no more. -/
  | clear (n : Nat)
  /-- A permit is given back. -/
  | release
  /-- Other parts of the server do something. -/
  | others (hub : Hub)

namespace Reception

def start (a : Authenticator) (maxPending : Nat) (hub : Hub) : Reception :=
  ⟨.start a maxPending, hub, [], 0, 0, [], []⟩

def note (r : Reception) (mail : Mail Inbound) : Reception :=
  match mail.payload with
  | .command (.login _ _) =>
    if mail.client ∈ r.service.pending then
      { r with taken := r.taken + 1, fates := r.fates ++ [(r.taken, .ignored)] }
    else if r.service.permits = 0 then
      { r with taken := r.taken + 1, fates := r.fates ++ [(r.taken, .turnedAway)] }
    else { r with taken := r.taken + 1, numbers := r.numbers ++ [r.taken] }
  | _ => r

/-- The reception after the `n`-th login, which is that of a client, has done something. -/
def after (r : Reception) (n : Nat) (client : ConnectionId) : Option Login × Hub → Reception
  | (some login, hub) => { r with hub, service.logins := r.service.logins.set n login }
  | (none, hub) =>
    { r with
      hub
      service.logins := r.service.logins.eraseIdx n
      concluded := r.concluded ++ [client]
      numbers := r.numbers.eraseIdx n
      fates := r.fates ++ (r.numbers[n]?.map fun number => (number, Fate.concluded)).toList }

def step (now : Instant) (r : Reception) : ReceptionStep → Reception
  | .letter mail =>
    let (service, hub) := r.service.take now r.hub mail
    { r.note mail with service, hub }
  | .inquiry q => { r with service.authenticator := r.service.authenticator.step now q }
  | .proceed n =>
    match r.service.logins[n]? with
    | none => r
    | some login =>
      r.after n login.client (LoginService.proceed now r.service.authenticator r.hub login)
  | .clear n =>
    match r.concluded[n]? with
    | none => r
    | some client =>
      { r with
        service.pending := r.service.pending.erase client
        concluded := r.concluded.eraseIdx n
        leaving := r.leaving + 1 }
  | .release =>
    if r.leaving = 0 then r
    else { r with service.permits := r.service.permits + 1, leaving := r.leaving - 1 }
  | .others hub => { r with hub }

def run (r : Reception) (steps : List (Instant × ReceptionStep)) : Reception :=
  steps.foldl (fun r (now, s) => r.step now s) r

variable {now : Instant} {r : Reception} {mail : Mail Inbound} {n limit : Nat} {box : MailboxId}

/-! ## Taking mail -/

/-- What the service does with a piece of mail. A login of a client that is pending is ignored, one
that finds no permit is turned away without a request, and any other begins. -/
inductive Takes (now : Instant) (mail : Mail Inbound) (r : Reception) : Reception → Prop
  | other (not_login : ∀ username password,
      mail.payload ≠ .command (.login username password)) : Takes now mail r r
  | ignored (username password : String)
      (payload_eq : mail.payload = .command (.login username password))
      (pending : mail.client ∈ r.service.pending) :
      Takes now mail r
        { r with taken := r.taken + 1, fates := r.fates ++ [(r.taken, .ignored)] }
  | turnedAway (username password : String) (hub : Hub)
      (payload_eq : mail.payload = .command (.login username password))
      (not_pending : mail.client ∉ r.service.pending) (permits_eq : r.service.permits = 0)
      (router_eq : hub.router = r.hub.router)
      (dismisses : r.hub.connections.Dismisses mail.client "request timed out" hub.connections) :
      Takes now mail r
        { r with hub, taken := r.taken + 1, fates := r.fates ++ [(r.taken, .turnedAway)] }
  | begins (username password : String) (stage : LoginStage) (authenticator : Authenticator)
      (payload_eq : mail.payload = .command (.login username password))
      (not_pending : mail.client ∉ r.service.pending) (permits_pos : 0 < r.service.permits)
      (stage_eq : stage = if mail.isExpired now then .judged .timedOut
        else .authenticating r.service.authenticator.requests.length)
      (authenticator_eq : authenticator = if mail.isExpired now then r.service.authenticator
        else (r.service.authenticator.submit now username password).2) :
      Takes now mail r
        { r with
          service := ⟨authenticator, r.service.permits - 1, r.service.pending ++ [mail.client],
            r.service.logins ++ [⟨mail.client, stage⟩]⟩
          taken := r.taken + 1
          numbers := r.numbers ++ [r.taken] }

theorem takes_letter (now : Instant) (r : Reception) (mail : Mail Inbound) :
    Takes now mail r (r.step now (.letter mail)) := by
  by_cases hlogin : ∃ username password, mail.payload = .command (.login username password)
  · obtain ⟨username, password, hpayload⟩ := hlogin
    by_cases hpending : mail.client ∈ r.service.pending
    · simpa [step, note, LoginService.take, LoginService.request, hpayload, hpending] using
        Takes.ignored username password hpayload hpending
    · by_cases hpermits : r.service.permits = 0
      · have hdismisses := LoginService.dismisses_reject r.hub.connections mail.client
          AuthOutcome.outOfTime
        have hturned : Takes now mail r _ := .turnedAway username password
          ⟨r.hub.router, LoginService.reject r.hub.connections mail.client AuthOutcome.outOfTime⟩
          hpayload hpending hpermits rfl hdismisses
        simpa [step, note, LoginService.take, LoginService.request, hpayload, hpending,
          hpermits] using hturned
      · have hbegins : Takes now mail r _ := .begins username password _ _ hpayload hpending
          (Nat.pos_of_ne_zero hpermits) rfl rfl
        cases hexpired : mail.isExpired now <;>
          simpa [step, note, LoginService.take, LoginService.request, Authenticator.submit,
            hpayload, hpending, hpermits, hexpired] using hbegins
  · have hother : ∀ username password, mail.payload ≠ .command (.login username password) :=
      fun username password h => hlogin ⟨username, password, h⟩
    have hstep : r.step now (.letter mail) = r := by
      simp [step, note, LoginService.take]
    rw [hstep]
    exact .other hother

/-! ## The accounts -/

/-- What is kept of mails, permits and pending clients fits the logins. -/
structure Kept (limit : Nat) (r : Reception) : Prop where
  permits_eq : r.service.permits + r.service.logins.length + r.concluded.length + r.leaving = limit
  pending_perm : r.service.pending.Perm (r.service.logins.map (·.client) ++ r.concluded)
  pending_nodup : r.service.pending.Nodup
  numbers_length : r.numbers.length = r.service.logins.length
  fates_perm : (r.fates.map (·.1) ++ r.numbers).Perm (List.range r.taken)

theorem kept_start (a : Authenticator) (maxPending : Nat) (hub : Hub) :
    (start a maxPending hub).Kept (max 1 maxPending) :=
  ⟨rfl, .nil, .nil, rfl, .nil⟩

theorem Takes.kept {r' : Reception} (ht : Takes now mail r r') (h : r.Kept limit) :
    r'.Kept limit := by
  have hfated : ∀ fate : Fate, (((r.fates ++ [(r.taken, fate)]).map Prod.fst) ++ r.numbers).Perm
      (List.range (r.taken + 1)) := by
    intro fate
    rw [List.map_append, List.append_assoc, List.range_succ]
    refine (List.Perm.append_left _ List.perm_append_comm).trans ?_
    rw [← List.append_assoc]
    exact h.fates_perm.append_right _
  cases ht with
  | other => exact h
  | ignored => exact ⟨h.permits_eq, h.pending_perm, h.pending_nodup, h.numbers_length, hfated _⟩
  | turnedAway => exact ⟨h.permits_eq, h.pending_perm, h.pending_nodup, h.numbers_length, hfated _⟩
  | begins username password stage authenticator hpayload hpending hpermits =>
      refine ⟨?_, ?_, ?_, ?_, ?_⟩
      · have hall := h.permits_eq
        simp only [List.length_append, List.length_singleton]
        omega
      · rw [List.map_append, List.append_assoc]
        refine (h.pending_perm.append_right _).trans ?_
        rw [List.append_assoc]
        exact List.Perm.append_left _ List.perm_append_comm
      · exact List.nodup_append.mpr ⟨h.pending_nodup, List.nodup_singleton _, by grind⟩
      · simp [h.numbers_length]
      · rw [← List.append_assoc, List.range_succ]
        exact h.fates_perm.append_right _

theorem perm_cons_eraseIdx {α : Type} {l : List α} {a : α} (h : l[n]? = some a) :
    l.Perm (a :: l.eraseIdx n) := by
  obtain ⟨hlt, rfl⟩ := List.getElem?_eq_some_iff.mp h
  exact (List.getElem_cons_eraseIdx_perm hlt).symm

theorem set_of_getElem? {α : Type} {l : List α} {a : α} (h : l[n]? = some a) : l.set n a = l := by
  obtain ⟨hlt, rfl⟩ := List.getElem?_eq_some_iff.mp h
  exact List.set_getElem_self hlt

theorem Kept.after (h : r.Kept limit) {login : Login} (hlogin : r.service.logins[n]? = some login)
    (next : Option Login × Hub)
    (hclient : ∀ login', next.1 = some login' → login'.client = login.client) :
    (r.after n login.client next).Kept limit := by
  obtain ⟨next, hub⟩ := next
  obtain ⟨hlt, -⟩ := List.getElem?_eq_some_iff.mp hlogin
  cases next with
  | some login' =>
      have hsame : (r.service.logins.set n login').map (·.client) =
          r.service.logins.map (·.client) := by
        rw [List.map_set, hclient login' rfl]
        refine set_of_getElem? ?_
        rw [List.getElem?_map, hlogin, Option.map_some]
      refine ⟨?_, ?_, h.pending_nodup, ?_, h.fates_perm⟩
      · simpa [Reception.after] using h.permits_eq
      · exact hsame ▸ h.pending_perm
      · simpa [Reception.after] using h.numbers_length
  | none =>
      have hlt' : n < r.numbers.length := h.numbers_length ▸ hlt
      refine ⟨?_, ?_, h.pending_nodup, ?_, ?_⟩
      · have hall := h.permits_eq
        simp only [Reception.after, List.length_eraseIdx_of_lt hlt, List.length_append,
          List.length_singleton]
        omega
      · have hclients := (perm_cons_eraseIdx hlogin).map Login.client
        refine h.pending_perm.trans ((hclients.append_right _).trans ?_)
        simp only [Reception.after, ← List.append_assoc]
        exact List.perm_append_singleton _ _ |>.symm
      · simp [Reception.after, List.length_eraseIdx_of_lt, hlt, h.numbers_length]
      · have hnumber := List.getElem?_eq_getElem hlt'
        simp only [Reception.after, hnumber, Option.map_some, Option.toList_some, List.map_append,
          List.map_cons, List.map_nil, List.append_assoc, List.singleton_append]
        exact ((perm_cons_eraseIdx hnumber).symm.append_left _).trans h.fates_perm

theorem Kept.step (h : r.Kept limit) (now : Instant) (s : ReceptionStep) :
    (r.step now s).Kept limit := by
  cases s with
  | letter mail => exact (takes_letter now r mail).kept h
  | inquiry q =>
      exact ⟨h.permits_eq, h.pending_perm, h.pending_nodup, h.numbers_length, h.fates_perm⟩
  | others hub =>
      exact ⟨h.permits_eq, h.pending_perm, h.pending_nodup, h.numbers_length, h.fates_perm⟩
  | proceed n =>
      cases hlogin : r.service.logins[n]? with
      | none => simpa only [Reception.step, hlogin] using h
      | some login =>
          simp only [Reception.step, hlogin]
          refine h.after hlogin _ fun login' heq => ?_
          exact (LoginService.proceed_eq_some (Prod.ext heq rfl)).1
  | clear n =>
      cases hclient : r.concluded[n]? with
      | none => simpa only [Reception.step, hclient] using h
      | some client =>
          simp only [Reception.step, hclient]
          obtain ⟨hlt, -⟩ := List.getElem?_eq_some_iff.mp hclient
          have hpending : r.service.pending.Perm
              (client :: (r.service.logins.map (·.client) ++ r.concluded.eraseIdx n)) :=
            h.pending_perm.trans (((perm_cons_eraseIdx hclient).append_left _).trans
              List.perm_middle)
          refine ⟨?_, ?_, h.pending_nodup.erase client, h.numbers_length, h.fates_perm⟩
          · have hall := h.permits_eq
            simp only [List.length_eraseIdx_of_lt hlt]
            omega
          · simpa using hpending.erase client
  | release =>
      by_cases hleaving : r.leaving = 0
      · simpa only [Reception.step, if_pos hleaving] using h
      · simp only [Reception.step, if_neg hleaving]
        refine ⟨?_, h.pending_perm, h.pending_nodup, h.numbers_length, h.fates_perm⟩
        have hall := h.permits_eq
        dsimp only
        omega

theorem Kept.run (h : r.Kept limit) (steps : List (Instant × ReceptionStep)) :
    (r.run steps).Kept limit := by
  induction steps generalizing r with
  | nil => exact h
  | cons s steps ih => exact ih (h.step s.1 s.2)

end Reception

end Realm
