import Realm.Proofs.Server.Handling

/-!
# From bytes to mail

Main statement: whatever a client sends, in whatever pieces and among whatever else happens, its
reader publishes one mail for each command that the frames say, in order, and ends at the first
thing that it cannot read, or where the bytes end; then the connection is closed and removed.
-/

namespace Realm

open Wire (Frame Packet WireError)

/-- The mail that a delivery has still to bring to a mailbox. -/
def Delivery.owes {α : Type} (id : MailboxId) (d : Delivery α) : List (Mail α) :=
  .replicate (d.todo.count id) d.mail

/-! ## What a reader publishes -/

namespace Uplink

variable {limits : LineLimits} {closed : Bool} {now : Instant} {router router' : Router Inbound}
  {u u' : Uplink}

def delivery? (u : Uplink) : Option (Delivery Inbound) :=
  match u.phase with
  | .publishing d => some d
  | _ => none

def owes (id : MailboxId) (u : Uplink) : List (Mail Inbound) := u.delivery?.elim [] (·.owes id)

/-- What one step of a reader has to do with mail: it begins to publish, or takes the delivery under
way further, or neither. -/
inductive Publishes (now : Instant) (router : Router Inbound) (u u' : Uplink) :
    Router Inbound → Prop
  | nothing (delivery?_eq : u.delivery? = none) (begun_eq : u.begun now router u' = [])
      (delivery?_eq' : u'.delivery? = none) : Publishes now router u u' router
  | begins (ticket : Nat) (topic : Topic) (mail : Mail Inbound) (delivery?_eq : u.delivery? = none)
      (begun_eq : u.begun now router u' = [⟨now, router, router.publish ticket topic mail⟩])
      (delivery?_eq' : u'.delivery? = some (router.publish ticket topic mail)) :
      Publishes now router u u' router
  | goesOn (d : Delivery Inbound) (delivery?_eq : u.delivery? = some d)
      (begun_eq : u.begun now router u' = [])
      (delivery?_eq' : u'.delivery? =
        if (d.advance now router).2.isDone then none else some (d.advance now router).2) :
      Publishes now router u u' (d.advance now router).1

theorem publishes_accept {since : Instant} (hphase : u.phase = .reading since) (p : Packet)
    (v : Uplink) : Publishes now router u (v.accept limits now router p) router := by
  have hnone : u.delivery? = none := by simp [delivery?, hphase]
  unfold accept
  split
  · exact .nothing hnone (by simp [begun, hphase, finish]) rfl
  · next routed _ =>
      cases routed with
      | skipped => exact .nothing hnone (by simp [begun, hphase, Routed.delivery]) rfl
      | published topic mail =>
          exact .begins (Routed.ticket mail.client) topic mail hnone
            (by simp [begun, hphase, Routed.delivery]) rfl

theorem publishes_of_step? (hstep : u.step? limits closed now router = some (u', router')) :
    Publishes now router u u' router' := by
  unfold step? at hstep
  cases hphase : u.phase with
  | ended result =>
      rw [hphase] at hstep
      cases hstep
  | publishing d =>
      have hsome : u.delivery? = some d := by simp [delivery?, hphase]
      simp only [hphase] at hstep
      split at hstep
      · next hdone =>
          cases hstep
          exact .goesOn d hsome (by simp [begun, hphase]) (by simp [delivery?, hdone])
      · next hdone =>
          cases hstep
          exact .goesOn d hsome (by simp [begun, hphase]) (by simp [delivery?, hdone])
  | reading since =>
      have hnone : u.delivery? = none := by simp [delivery?, hphase]
      have hfinish : ∀ result, Publishes now router u (u.finish result) router := fun result =>
        .nothing hnone (by simp [begun, hphase, finish]) rfl
      simp only [hphase] at hstep
      split at hstep
      · cases hstep
        exact hfinish _
      · split at hstep
        · cases hstep
          exact publishes_accept hphase ..
        · cases hstep
          exact hfinish _
        · cases hstep
          exact hfinish _
        · split at hstep
          · cases hstep
            exact hfinish _
          · cases hstep

/-- What a reader still has to bring and begins to publish, it brings or has still to bring, if no
mailbox is closed and no delivery gives up. -/
theorem Publishes.owes (h : Publishes now router u u' router')
    (hplain : ∀ d ∈ u.delivery?, d.persistent = false)
    (hprompt : ∀ d ∈ u.delivery?, (∀ id ∈ d.todo, router.refuses id = false) ∧
      (d.advance now router).2.gaveUp = false) (id : MailboxId) :
    u.owes id ++ (u.begun now router u').flatMap (·.delivery.owes id) =
        (router'.queued id).drop (router.queued id).length ++ u'.owes id := by
  cases h with
  | nothing hnone hbegun hnone' => simp [Uplink.owes, hnone, hnone', hbegun]
  | begins ticket topic mail hnone hbegun hsome => simp [Uplink.owes, hnone, hsome, hbegun]
  | goesOn d hsome hbegun hnext =>
      obtain ⟨hopen, hgoes⟩ := hprompt d hsome
      obtain ⟨n, hqueued, hcount⟩ := Delivery.fills_advance hopen (hplain d hsome) hgoes id
      have hrest : u'.owes id = (d.advance now router).2.owes id := by
        rw [Uplink.owes, hnext]
        split
        · next hdone =>
            have hnil : (d.advance now router).2.todo = [] := List.isEmpty_iff.mp hdone
            simp [Delivery.owes, hnil]
        · rfl
      rw [hbegun, hqueued, hrest, Uplink.owes, hsome, List.drop_left, Delivery.owes,
        Delivery.mail_advance, List.replicate_append_replicate, hcount]
      simp [Delivery.owes]

theorem Publishes.plain (h : Publishes now router u u' router')
    (hplain : ∀ d ∈ u.delivery?, d.persistent = false) :
    ∀ d ∈ u'.delivery?, d.persistent = false := by
  intro d hd
  cases h with
  | nothing _ _ hnone => cases hnone.symm.trans hd
  | begins ticket topic mail _ _ hsome =>
      cases hsome.symm.trans hd
      rfl
  | goesOn x hsome _ hnext =>
      have hsame := x.persistent_advance now router
      have hfound := hnext.symm.trans hd
      split at hfound
      · cases hfound
      · cases hfound
        exact hsame.trans (hplain x hsome)

theorem begun_of_phase_eq (h : u'.phase = u.phase) : begun now router u u' = [] := by
  unfold begun
  rw [h]
  cases u.phase <;> rfl

/-- Only a reader that reads notices that its connection is closed. -/
theorem step?_eq_of_open (h : ∀ since, u.phase = .reading since → closed = false) :
    u.step? limits closed now router = u.step? limits false now router := by
  unfold step?
  cases hphase : u.phase with
  | reading since => rw [h since hphase]
  | _ => rfl

end Uplink

namespace HandlerDesk

variable {d : HandlerDesk} {now time : Instant} {client : ConnectionId} {s : HandlerStep}
  {steps later : List (Instant × HandlerStep)} {bytes : List UInt8} {said : List Command}

def brought (now : Instant) (d : HandlerDesk) (id : MailboxId) : HandlerStep → List (Mail Inbound)
  | .read notices =>
    ((d.step now (.read notices)).hub.router.queued id).drop (d.hub.router.queued id).length
  | _ => []

def arrived (d : HandlerDesk) (id : MailboxId) :
    List (Instant × HandlerStep) → List (Mail Inbound)
  | [] => []
  | (now, s) :: steps => d.brought now id s ++ (d.step now s).arrived id steps

/-- A publication under way finds no mailbox closed, and does not come to the end of its time. -/
def Prompt (now : Instant) (d : HandlerDesk) : HandlerStep → Prop
  | .read _ => ∀ x ∈ d.handler.uplink.delivery?, (∀ id ∈ x.todo, d.hub.router.refuses id = false) ∧
      (x.advance now d.hub.router).2.gaveUp = false
  | _ => True

def AllPrompt (d : HandlerDesk) : List (Instant × HandlerStep) → Prop
  | [] => True
  | (now, s) :: steps => d.Prompt now s ∧ (d.step now s).AllPrompt steps

/-! ## One step -/

/-- What is sent to a reader waits for it, unless it has ended. -/
theorem follows_step (hplaced : d.Placed client) (hs : ∀ notices, s ≠ .read notices)
    (hcalm : d.Calm now s) (h : d.handler.uplink.Follows d.limits.maxPacket bytes said) :
    (d.step now s).handler.uplink.Follows d.limits.maxPacket (bytes ++ sent [(now, s)]) said := by
  cases s with
  | read notices => exact absurd rfl (hs notices)
  | bytes more =>
      have hsent : sent [(now, .bytes more)] = more := List.append_nil more
      rw [hsent]
      by_cases hgone : d.handler.gone = true
      · have hkept : d.step now (.bytes more) = d := by
          simp [HandlerDesk.step, Handler.feed, hgone]
        rw [hkept]
        exact h.late hcalm (hplaced.ended (hplaced.leaving hgone)) more
      · have hfed : (d.step now (.bytes more)).handler.uplink = d.handler.uplink.feed more := by
          simp [HandlerDesk.step, Handler.feed, hgone]
        rw [hfed]
        exact h.feed hcalm more
  | hangUp =>
      rw [show sent [(now, .hangUp)] = [] from rfl, List.append_nil]
      exact h.hangUp
  | others router uses =>
      rw [show sent [(now, .others router uses)] = [] from rfl, List.append_nil]
      exact h
  | leave | write | remove =>
      rw [uplink_step now d (by simp)]
      exact (List.append_nil bytes).symm ▸ h

/-- A reader that nobody disturbs goes through the bytes, one step at a time. -/
theorem exists_follows_step (hplaced : d.Placed client) (hcalm : d.Calm now s)
    (h : d.handler.uplink.Follows d.limits.maxPacket bytes said) :
    ∃ new, List.Forall₂ (Publication.Brings d.limits.loginDeadline client)
        (d.handler.uplink.begun now d.hub.router (d.step now s).handler.uplink) new ∧
      (d.step now s).handler.uplink.Follows d.limits.maxPacket (bytes ++ sent [(now, s)])
        (said ++ new) := by
  by_cases hs : ∃ notices, s = .read notices
  · obtain ⟨notices, rfl⟩ := hs
    rw [show sent [(now, .read notices)] = [] from rfl, List.append_nil]
    rcases read_cases now d notices with hsame | ⟨u, router, hstep, hread⟩
    · rw [hsame, Uplink.begun_of_phase_eq rfl]
      exact ⟨[], .nil, by rwa [List.append_nil]⟩
    · have hopen : ∀ since, d.handler.uplink.phase = .reading since →
          (notices && d.hub.connections.isClosed d.handler.client) = false := fun since hphase => by
        rw [(hcalm since hphase).1, Bool.and_false]
      rw [Uplink.step?_eq_of_open hopen] at hstep
      rw [hread, ← hplaced.client_eq]
      exact h.step hstep fun since hphase => (hcalm since hphase).2
  · have hs := not_exists.mp hs
    rw [Uplink.begun_of_phase_eq (phase_step now d hs)]
    exact ⟨[], .nil, by rw [List.append_nil]; exact follows_step hplaced hs hcalm h⟩

/-- What the reader publishes at a step, and had still to bring, it brings or has still to bring. -/
theorem owes_step (hplain : ∀ x ∈ d.handler.uplink.delivery?, x.persistent = false)
    (hprompt : d.Prompt now s) (id : MailboxId) :
    d.handler.uplink.owes id ++
        (d.handler.uplink.begun now d.hub.router (d.step now s).handler.uplink).flatMap
          (·.delivery.owes id) =
      d.brought now id s ++ (d.step now s).handler.uplink.owes id ∧
    ∀ x ∈ (d.step now s).handler.uplink.delivery?, x.persistent = false := by
  by_cases hs : ∃ notices, s = .read notices
  · obtain ⟨notices, rfl⟩ := hs
    rw [brought]
    rcases read_cases now d notices with hsame | ⟨u, router, hstep, hread⟩
    · rw [hsame, Uplink.begun_of_phase_eq rfl, List.drop_length]
      exact ⟨by simp, hplain⟩
    · rw [hread]
      have hpublishes := Uplink.publishes_of_step? hstep
      exact ⟨hpublishes.owes hplain hprompt id, hpublishes.plain hplain⟩
  · have hs := not_exists.mp hs
    have hphase := phase_step now d hs
    have hnothing : d.brought now id s = [] := by
      cases s with
      | read notices => exact absurd rfl (hs notices)
      | _ => rfl
    have hsame : (d.step now s).handler.uplink.delivery? = d.handler.uplink.delivery? := by
      unfold Uplink.delivery?
      rw [hphase]
    rw [Uplink.begun_of_phase_eq hphase, hnothing, Uplink.owes, Uplink.owes, hsame]
    exact ⟨by simp, hplain⟩

/-! ## Many steps -/

theorem sent_append (steps later : List (Instant × HandlerStep)) :
    sent (steps ++ later) = sent steps ++ sent later := List.flatMap_append

theorem allCalm_append (h : d.AllCalm steps) (hlater : (d.run steps).AllCalm later) :
    d.AllCalm (steps ++ later) := by
  induction steps generalizing d with
  | nil => exact hlater
  | cons s steps ih => exact ⟨h.1, ih h.2 hlater⟩

theorem exists_follows_run (hplaced : d.Placed client) (hcalm : d.AllCalm steps)
    (h : d.handler.uplink.Follows d.limits.maxPacket bytes said) :
    ∃ new, List.Forall₂ (Publication.Brings d.limits.loginDeadline client) (d.published steps) new ∧
      (d.run steps).handler.uplink.Follows d.limits.maxPacket (bytes ++ sent steps)
        (said ++ new) := by
  induction steps generalizing d bytes said with
  | nil => exact ⟨[], .nil, by simpa [sent, run] using h⟩
  | cons s steps ih =>
      obtain ⟨now, s⟩ := s
      obtain ⟨new, hnew, hfirst⟩ := exists_follows_step hplaced hcalm.1 h
      have hlimits := d.limits_step now s
      rw [← hlimits] at hfirst
      obtain ⟨more, hmore, hrest⟩ := ih (hplaced.step now s) hcalm.2 hfirst
      rw [hlimits] at hmore hrest
      refine ⟨new ++ more, List.rel_append hnew hmore, ?_⟩
      have hsent : sent ((now, s) :: steps) = sent [(now, s)] ++ sent steps :=
        sent_append [(now, s)] steps
      rw [hsent, ← List.append_assoc, ← List.append_assoc]
      exact hrest

theorem owes_run (hplain : ∀ x ∈ d.handler.uplink.delivery?, x.persistent = false)
    (hprompt : d.AllPrompt steps) (id : MailboxId) :
    d.handler.uplink.owes id ++ (d.published steps).flatMap (·.delivery.owes id) =
      d.arrived id steps ++ (d.run steps).handler.uplink.owes id := by
  induction steps generalizing d with
  | nil => simp [published, arrived, run]
  | cons s steps ih =>
      obtain ⟨now, s⟩ := s
      obtain ⟨hfirst, hplain'⟩ := owes_step hplain hprompt.1 id
      rw [published, arrived, List.flatMap_append, ← List.append_assoc, hfirst, List.append_assoc,
        ih hplain' hprompt.2, List.append_assoc]
      rfl

/-! ## Going on -/

/-- What a handler does by itself from one instant to another. -/
def Own : Instant → List (Instant × HandlerStep) → Instant → Prop
  | now, [], last => now ≤ last
  | now, (time, s) :: later, last =>
    now ≤ time ∧ (s = .read true ∨ s = .leave ∨ s = .remove) ∧ Own time later last

theorem Own.append {middle last : Instant} {more : List (Instant × HandlerStep)}
    (h : Own now later middle) (hmore : Own middle more last) : Own now (later ++ more) last := by
  induction later generalizing now with
  | nil =>
      cases more with
      | nil => exact Nat.le_trans h hmore
      | cons s more => exact ⟨Nat.le_trans h hmore.1, hmore.2⟩
  | cons s later ih => exact ⟨h.1, h.2.1, ih h.2.2⟩

theorem Own.sent_eq (h : Own now later time) : sent later = [] := by
  induction later generalizing now with
  | nil => rfl
  | cons s later ih =>
      obtain ⟨_, s⟩ := s
      obtain ⟨-, rfl | rfl | rfl, hrest⟩ := h <;> exact ih hrest

/-- Left to itself, a reader ends, or it comes to wait for bytes on an open connection. -/
theorem exists_own_reading (d : HandlerDesk) (now : Instant) (hthere : d.handler.gone = false)
    (hgoes : d.handler.uplink.result? = none) :
    ∃ later time, Own now later time ∧
      (d.hub.connections.isClosed d.handler.client = false → d.AllCalm later) ∧
      (d.run later).handler.uplink.hungUp = d.handler.uplink.hungUp ∧
      ((d.run later).handler.uplink.result? ≠ none ∨
        (d.run later).handler.gone = false ∧
        (d.run later).hub.connections.isClosed (d.run later).handler.client = false ∧
        (d.run later).handler.uplink.Waits d.limits.maxPacket) := by
  by_cases hwaits : d.hub.connections.isClosed d.handler.client = false ∧
      d.handler.uplink.Waits d.limits.maxPacket
  · exact ⟨[], now, Nat.le_refl _, fun _ => trivial, rfl, .inr ⟨hthere, hwaits⟩⟩
  · have hnot : d.hub.connections.isClosed d.handler.client = true ∨
        ¬ d.handler.uplink.Waits d.limits.maxPacket := by
      rw [← Bool.not_eq_false, ← not_and_or]
      exact hwaits
    obtain ⟨time, u, router, hnow, hstep, hhung, hless⟩ :=
      Uplink.exists_step hgoes hnot now d.hub.router
    have hread := step_read true hthere hstep
    have hclient : u.client = d.handler.uplink.client := Uplink.client_of_step? hstep
    have hcalm : d.hub.connections.isClosed d.handler.client = false → d.Calm time (.read true) :=
      fun hopen since hphase => ⟨hopen, fun hglimpse =>
        absurd ⟨hopen, since, hphase, hglimpse⟩ hwaits⟩
    by_cases hend : u.result? = none
    · have hdecrease : u.unread.length < d.handler.uplink.unread.length ∨
          u.unread.length = d.handler.uplink.unread.length ∧ u.pause < d.handler.uplink.pause :=
        (hless.resolve_left fun h => h hend).imp_right fun h => ⟨congrArg _ h.1, h.2⟩
      obtain ⟨later, last, hown, hcalm', hhung', hends⟩ := exists_own_reading
        { d with handler := { d.handler with uplink := u }, hub := { d.hub with router } }
        time hthere hend
      rw [← hread] at hcalm' hhung' hends
      have hclosed : (d.step time (.read true)).hub.connections.isClosed
          (d.step time (.read true)).handler.client = d.hub.connections.isClosed d.handler.client := by
        rw [hread]
        exact congrArg d.hub.connections.isClosed hclient
      refine ⟨(time, .read true) :: later, last, ⟨hnow, .inl rfl, hown⟩, fun hopen => ?_, ?_, hends⟩
      · exact ⟨hcalm hopen, hcalm' (hclosed.trans hopen)⟩
      · exact hhung'.trans ((congrArg (·.handler.uplink.hungUp) hread).trans hhung)
    · refine ⟨[(time, .read true)], time, ⟨hnow, .inl rfl, Nat.le_refl _⟩,
        fun hopen => ?_, ?_, .inl ?_⟩
      · exact ⟨hcalm hopen, trivial⟩
      · show (d.step time (.read true)).handler.uplink.hungUp = _
        rw [hread]
        exact hhung
      · show (d.step time (.read true)).handler.uplink.result? ≠ none
        rw [hread]
        exact hend
termination_by (d.handler.uplink.unread.length, d.handler.uplink.pause)
decreasing_by exact Prod.lex_def.mpr hdecrease

/-- A handler whose reader has ended leaves, and is then removed in time. -/
theorem exists_own_leaving (d : HandlerDesk) (now : Instant)
    (hended : d.handler.uplink.result? ≠ none) :
    ∃ later time, Own now later time ∧ d.AllCalm later ∧ (d.run later).handler.gone = true := by
  by_cases hgone : d.handler.gone = true
  · exact ⟨[], now, Nat.le_refl _, trivial, hgone⟩
  have hthere := eq_false_of_ne_true hgone
  have hleave : (d.step now .leave).handler.leaving.isSome ∧
      (d.step now .leave).handler.gone = false := by
    show (d.act _).handler.leaving.isSome ∧ (d.act _).handler.gone = false
    rw [act_of_there hthere]
    unfold Handler.onConnections Handler.leave
    by_cases hfirst : d.handler.uplink.result?.isSome ∧ d.handler.leaving = none
    · rw [if_pos hfirst]
      exact ⟨rfl, hthere⟩
    · rw [if_neg hfirst]
      refine ⟨Option.isSome_iff_ne_none.mpr fun hnone => hfirst ⟨?_, hnone⟩, hthere⟩
      exact Option.isSome_iff_ne_none.mpr hended
  obtain ⟨due, hdue⟩ := Option.isSome_iff_exists.mp hleave.1
  let time := max now due
  have hlate : (d.step now .leave).handler.leaving.any (· ≤ time) = true := by
    rw [hdue]
    exact decide_eq_true (Nat.le_max_right now due)
  refine ⟨[(now, .leave), (time, .remove)], time, ⟨Nat.le_refl _, .inr (.inl rfl),
    Nat.le_max_left .., .inr (.inr rfl), Nat.le_refl _⟩, ⟨trivial, trivial, trivial⟩, ?_⟩
  show ((d.step now .leave).act _).handler.gone = true
  rw [act_of_there hleave.2]
  unfold Handler.onConnections Handler.remove
  rw [if_pos ⟨hleave.1, by simp [hleave.2], .inr hlate⟩]

/-- If the client stops or something is wrong, a reader that nobody disturbs ends. -/
theorem exists_own_calm {chunks : List (List UInt8)} (hplaced : d.Placed client)
    (h : d.handler.uplink.Follows d.limits.maxPacket bytes said) (hchunks : chunks.flatten = bytes)
    (hopen : d.handler.uplink.result? = none → d.hub.connections.isClosed client = false)
    (hover : d.handler.uplink.hungUp = true ∨
      ∃ e ∈ (Command.readAll d.limits.maxPacket chunks).2, e ≠ .truncated) (now : Instant) :
    ∃ later time, Own now later time ∧ d.AllCalm later ∧ (d.run later).handler.gone = true := by
  by_cases hgoes : d.handler.uplink.result? = none
  · have hthere : d.handler.gone = false :=
      eq_false_of_ne_true fun hgone => hplaced.ended (hplaced.leaving hgone) hgoes
    obtain ⟨later, time, hown, hcalm, hhung, hends⟩ := exists_own_reading d now hthere hgoes
    have hcalm := hcalm (hplaced.client_eq.symm ▸ hopen hgoes)
    rcases hends with hended | ⟨-, -, hwaits⟩
    · obtain ⟨more, last, hmore, hrest, hgone⟩ := exists_own_leaving (d.run later) time hended
      exact ⟨later ++ more, last, hown.append hmore, allCalm_append hcalm hrest,
        by rwa [run_append]⟩
    · obtain ⟨new, -, hfollows⟩ := exists_follows_run hplaced hcalm h
      rw [hown.sent_eq, List.append_nil] at hfollows
      obtain ⟨hmore, -, hright⟩ := hfollows.of_waits hchunks hwaits
      rw [hhung] at hmore
      rcases hover with hover | ⟨e, he, hwrong⟩
      · simp [hmore] at hover
      · exact absurd (hright e he) hwrong
  · exact exists_own_leaving d now hgoes

/-- In every case a handler can go on until it is gone. -/
theorem exists_own_gone (hplaced : d.Placed client) (now : Instant) :
    ∃ later time, Own now later time ∧ (d.run later).handler.gone = true := by
  have hleaves : ∀ later time, Own now later time →
      (d.run later).handler.uplink.result? ≠ none →
      ∃ later time, Own now later time ∧ (d.run later).handler.gone = true := by
    intro later time hown hended
    obtain ⟨more, last, hmore, -, hgone⟩ := exists_own_leaving (d.run later) time hended
    exact ⟨later ++ more, last, hown.append hmore, by rwa [run_append]⟩
  by_cases hgoes : d.handler.uplink.result? = none
  · have hthere : d.handler.gone = false :=
      eq_false_of_ne_true fun hgone => hplaced.ended (hplaced.leaving hgone) hgoes
    obtain ⟨later, time, hown, -, -, hended | ⟨hthere', hopen, hwaits⟩⟩ :=
      exists_own_reading d now hthere hgoes
    · exact hleaves later time hown hended
    · -- the client stays silent, and some time it has been silent for too long
      rw [← d.limits_run later] at hwaits
      obtain ⟨silent, u, htime, hstep, hended⟩ :=
        Uplink.exists_step_of_waits hwaits time (d.run later).hub.router
      rw [← hopen] at hstep
      have hsilent : Own time [(silent, .read true)] silent := ⟨htime, .inl rfl, Nat.le_refl _⟩
      refine hleaves _ silent (hown.append hsilent) ?_
      rw [run_append]
      show ((d.run later).step silent (.read true)).handler.uplink.result? ≠ none
      rw [step_read true hthere' hstep]
      exact hended
  · exact hleaves [] now (Nat.le_refl _) hgoes

/-! ## The main statement -/

/-- What holds of a handler that began to serve a connection, after some steps. -/
structure Handles (client : ConnectionId) (first : HandlerDesk)
    (steps : List (Instant × HandlerStep)) (last : HandlerDesk) : Prop where
  /-- As long as the reader goes on, it has published what the frames say that it has read. -/
  going : first.AllCalm steps → last.handler.uplink.result? = none →
    ∃ fs said, Frame.AllFit first.limits.maxPacket fs ∧
      sent steps = Frame.join fs ++ last.handler.uplink.unread ∧
      Command.spoken (fs.map Frame.packet) = (said, none) ∧
      List.Forall₂ (Publication.Brings first.limits.loginDeadline client) (first.published steps)
        said
  /-- When it waits for bytes, it has published what all the frames say, and nothing is wrong. -/
  waiting : first.AllCalm steps → last.handler.uplink.Waits first.limits.maxPacket →
    ∀ chunks, chunks.flatten = sent steps →
      List.Forall₂ (Publication.Brings first.limits.loginDeadline client) (first.published steps)
        (Command.readAll first.limits.maxPacket chunks).1 ∧
      ∀ e ∈ (Command.readAll first.limits.maxPacket chunks).2, e = .truncated
  /-- When it has ended, it has published what the frames say up to the first thing that is wrong,
  and that is what it ended for. -/
  ended : first.AllCalm steps → ∀ result, last.handler.uplink.result? = some result →
    ∀ chunks, chunks.flatten = sent steps →
      List.Forall₂ (Publication.Brings first.limits.loginDeadline client) (first.published steps)
        (Command.readAll first.limits.maxPacket chunks).1 ∧
      result = Uplink.verdict client (Command.readAll first.limits.maxPacket chunks).2
  ok_iff : first.AllCalm steps → ∀ result, last.handler.uplink.result? = some result →
    (result = .ok () ↔ last.handler.uplink.hungUp = true ∧
      ∃ fs, Frame.AllFit first.limits.maxPacket fs ∧ sent steps = Frame.join fs ∧
        (Command.spoken (fs.map Frame.packet)).2 = none)
  /-- Each publication comes once into each mailbox that was subscribed to its topic, in order. -/
  arrived_eq : first.AllPrompt steps → ∀ id,
    first.arrived id steps ++ last.handler.uplink.owes id =
      (first.published steps).flatMap (·.delivery.owes id)
  /-- If the client stops, or something is wrong, the handler comes to its end undisturbed. -/
  finishes : first.AllCalm steps →
    (last.handler.uplink.result? = none → last.hub.connections.isClosed client = false) →
    ∀ chunks, chunks.flatten = sent steps →
      (last.handler.uplink.hungUp = true ∨
        ∃ e ∈ (Command.readAll first.limits.maxPacket chunks).2, e ≠ .truncated) →
      ∀ now, ∃ later time, Own now later time ∧ last.AllCalm later ∧
        (last.run later).handler.gone = true
  /-- In every case it can come to its end. -/
  leaves : ∀ now, ∃ later time, Own now later time ∧ (last.run later).handler.gone = true
  /-- When it is gone, its reader has ended, and its connection is closed and removed. -/
  removed : last.handler.gone = true → last.handler.result? = last.handler.uplink.result? ∧
    last.handler.result?.isSome ∧
    last.hub.connections.isClosed client = true ∧ last.hub.connections.get? client = none
  /-- All that is done at an instant are such steps. -/
  settles : ∀ now, ∃ todo : List HandlerStep, last.settle now = last.run (todo.map (Prod.mk now))
  /-- What the handler does as part of a server are such steps. -/
  acts : ∀ s, last.At s → ∀ (own : HandlerStep) (e : Act), own.act? client = some e →
    ∀ now, (last.step now own).At (s.act now e)

theorem Placed.get?_eq_none (h : d.Placed client) (hgone : d.handler.gone = true) :
    d.hub.connections.get? client = none := by
  refine Option.eq_none_iff_forall_ne_some.mpr fun k hk => ?_
  have hfound : (d.hub.connections.get? client).isSome := by rw [hk]; rfl
  exact h.removed hgone (Connections.isSome_get?.mp hfound).1

theorem start_handles (limits : LineLimits) (now : Instant) (router : Router Inbound)
    (before : List TableUse) (address : SocketAddress) (capacity : Nat)
    (steps : List (Instant × HandlerStep)) :
    let connections := Connections.empty.afterAll before
    let first := start limits now router connections address capacity
    Handles connections.nextId first steps (first.run steps) := by
  intro connections first
  let client := connections.nextId
  let last := first.run steps
  have hnumbered : connections.Numbered :=
    (Connections.ages_afterAll Connections.numbered_empty before).numbered
      Connections.numbered_empty
  have hfirst : first.Placed client := placed_start limits now router hnumbered address capacity
  have hlast : last.Placed client := hfirst.run steps
  have hlimits : last.limits = first.limits := first.limits_run steps
  have hfollows : first.AllCalm steps → ∃ said,
      List.Forall₂ (Publication.Brings first.limits.loginDeadline client) (first.published steps)
        said ∧ last.handler.uplink.Follows first.limits.maxPacket (sent steps) said :=
    fun hcalm => exists_follows_run hfirst hcalm (Uplink.follows_start _ _ now)
  refine ⟨fun hcalm hgoes => ?_, fun hcalm hwaits chunks hchunks => ?_,
    fun hcalm result hresult chunks hchunks => ?_, fun hcalm result hresult => ?_,
    fun hprompt id => ?_, fun hcalm hopen chunks hchunks hover time => ?_,
    exists_own_gone hlast, fun hgone => ?_, fun time => exists_run_settle last time,
    fun s hs own e he time => ?_⟩
  · obtain ⟨said, hsaid, h⟩ := hfollows hcalm
    cases h with
    | going fs fits sent_eq spoken_eq => exact ⟨fs, said, fits, sent_eq, spoken_eq, hsaid⟩
    | refused _ _ _ _ _ _ result_eq | broken _ _ _ _ _ _ _ result_eq
    | finished _ _ _ _ _ result_eq => cases hgoes.symm.trans result_eq
  · obtain ⟨said, hsaid, h⟩ := hfollows hcalm
    obtain ⟨-, rfl, hright⟩ := h.of_waits hchunks hwaits
    exact ⟨hsaid, hright⟩
  · obtain ⟨said, hsaid, h⟩ := hfollows hcalm
    obtain ⟨rfl, hverdict⟩ := h.ended hchunks hresult
    exact ⟨hsaid, hverdict.trans (congrArg (Uplink.verdict · _) hlast.client_eq)⟩
  · obtain ⟨said, -, h⟩ := hfollows hcalm
    exact h.ok_iff hresult
  · exact (owes_run (by rintro x ⟨⟩) hprompt id).symm
  · obtain ⟨said, -, h⟩ := hfollows hcalm
    rw [← hlimits] at h hover
    exact exists_own_calm hlast h hchunks hopen hover time
  · have hresult : last.handler.result? = last.handler.uplink.result? := if_pos hgone
    have hended := hlast.ended (hlast.leaving hgone)
    exact ⟨hresult, hresult ▸ Option.isSome_iff_ne_none.mpr hended,
      hlast.closed (hlast.leaving hgone), hlast.get?_eq_none hgone⟩
  · exact hs.act (hlast.client_eq ▸ he) time

/-- In two pieces come a frame of an unknown kind, a message and one that cannot be read. -/
example :
    let router := ((Router.new ⟨.ofMillis 10, 4⟩).subscribe .chat).2
    let first := start ⟨.ofSeconds 60, 64, .ofSeconds 5⟩ 0 router .empty (.v4 [127, 0, 0, 1] 4000) 4
    let steps : List (Instant × HandlerStep) :=
      [(1, .bytes [77, 3, 1, 2, 3, 2, 3]), (1, .read true), (2, .bytes [2, 104, 105, 2, 1, 9]),
        (2, .read true), (2, .read false), (3, .read true), (3, .leave), (2003, .remove)]
    let last := first.run steps
    first.arrived 1 steps = [⟨1, .command (.chat "hi"), none⟩] ∧
      last.handler.result?.isSome ∧ last.hub.connections.isClosed 1 = true ∧
      last.hub.connections.registered = [] := by
  decide +kernel

end HandlerDesk

end Realm
