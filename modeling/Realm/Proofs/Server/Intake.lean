import Realm.Account.Login
import Realm.Proofs.Router.Post
import Realm.Proofs.Simulation.Obedience
import Realm.Server.Routing

/-!
# From packets to deeds

Clients route packets, each one after the other, while others announce logins, consumers act on
their mailboxes and the simulation takes mail and ticks, all of it in any order. Main statement: the
commands that are applied for a connection are, in order and each at most once, among those that the
connection routed; they are applied to the entity of its session and answered there; and none
outlives the session it was queued on.
-/

namespace Realm

/-- A router, the simulation behind one of its mailboxes, and what is being published. -/
structure Intake where
  router : Router Inbound
  simulation : Simulation
  /-- The packet of a client that is being published. -/
  underway : ConnectionId → Option (Delivery Inbound)
  /-- The logins that are being announced. -/
  announcing : List (Delivery Inbound)

inductive IntakeStep where
  /-- A client begins to route a packet, unless it still routes another. -/
  | route (client : ConnectionId) (packet : Wire.Packet)
  /-- The publication of a packet does what it can. -/
  | publish (client : ConnectionId)
  | announce (client : ConnectionId) (account : Account)
  /-- The `n`-th announcement does what it can. -/
  | proceed (n : Nat)
  /-- The simulation takes one mail. -/
  | take
  | consume (mailbox : MailboxId) (action : Router.ConsumerAction)
  /-- Something but mail reaches the simulation. -/
  | happen (event : SimulationEvent)

def Mail.commandOf (client : ConnectionId) (mail : Mail Inbound) : Option Command :=
  (SimulationEvent.mail mail.client mail.payload).commandOf client

def Mail.commandsOf (client : ConnectionId) (mail : List (Mail Inbound)) : List Command :=
  mail.filterMap (Mail.commandOf client)

namespace Intake

def start (setup : SimulationSetup) (router : Router Inbound) : Intake :=
  ⟨router, .new setup .empty, fun _ => none, []⟩

def event? (box : MailboxId) (i : Intake) : IntakeStep → Option SimulationEvent
  | .take =>
    match (i.router.receive box).1 with
    | .mail mail => some (.mail mail.client mail.payload)
    | _ => none
  | .happen (.mail _ _) => none
  | .happen e => some e
  | _ => none

def depart (deadline : Duration) (now : Instant) (i : Intake) (client : ConnectionId)
    (packet : Wire.Packet) : Intake :=
  match i.underway client, Routed.ofPacket now deadline client packet with
  | none, .ok routed =>
    { i with underway := Function.update i.underway client (routed.delivery i.router) }
  | _, _ => i

def bring (now : Instant) (i : Intake) (client : ConnectionId) : Intake :=
  match i.underway client with
  | none => i
  | some d =>
    let (router, d) := d.advance now i.router
    { i with
      router
      underway := Function.update i.underway client (if d.isDone then none else some d) }

def proclaim (now : Instant) (i : Intake) (n : Nat) : Intake :=
  match i.announcing[n]? with
  | none => i
  | some d =>
    let (router, d) := d.advance now i.router
    { i with router, announcing := i.announcing.set n d }

def transport (box : MailboxId) (deadline : Duration) (now : Instant) (i : Intake) :
    IntakeStep → Intake
  | .route client packet => i.depart deadline now client packet
  | .publish client => i.bring now client
  | .announce client account =>
    let d := i.router.publish (LoginService.ticket client) .authenticated
      ⟨client, .authenticated account, none⟩
    { i with announcing := i.announcing ++ [d] }
  | .proceed n => i.proclaim now n
  | .take => { i with router := (i.router.receive box).2 }
  | .consume mailbox action => { i with router := (i.router.act mailbox action).2 }
  | .happen _ => i

def step (box : MailboxId) (deadline : Duration) (i : Intake) (now : Instant) (st : IntakeStep) :
    Intake :=
  { i.transport box deadline now st with
    simulation := (i.event? box st).elim i.simulation i.simulation.step }

def run (box : MailboxId) (deadline : Duration) (i : Intake) (steps : List (Instant × IntakeStep)) :
    Intake := steps.foldl (fun i st => i.step box deadline st.1 st.2) i

def events (box : MailboxId) (deadline : Duration) (i : Intake) :
    List (Instant × IntakeStep) → List SimulationEvent
  | [] => []
  | st :: rest =>
    (i.event? box st.2).toList ++ (i.step box deadline st.1 st.2).events box deadline rest

def routed? (client : ConnectionId) (i : Intake) : IntakeStep → Option Command
  | .route c packet =>
    if c = client ∧ i.underway c = none then (Command.catalog.decode packet).toOption.map (·.2)
    else none
  | _ => none

def routed (box : MailboxId) (deadline : Duration) (client : ConnectionId) (i : Intake) :
    List (Instant × IntakeStep) → List Command
  | [] => []
  | st :: rest =>
    (i.routed? client st.2).toList ++ (i.step box deadline st.1 st.2).routed box deadline client rest

variable {box : MailboxId} {deadline : Duration} {now : Instant} {i : Intake} {c : ConnectionId}
  {rules : GameRules}

theorem simulation_run (i : Intake) (steps : List (Instant × IntakeStep)) :
    (i.run box deadline steps).simulation = i.simulation.run (i.events box deadline steps) := by
  induction steps generalizing i with
  | nil => rfl
  | cons st rest ih =>
      have hrest := ih (i.step box deadline st.1 st.2)
      rw [events, Simulation.run_append]
      have hstep : (i.step box deadline st.1 st.2).simulation =
          i.simulation.run (i.event? box st.2).toList := by
        unfold step
        cases i.event? box st.2 <;> rfl
      rw [← hstep]
      exact hrest

/-! ## On the way -/

def remainder (box : MailboxId) (d : Delivery Inbound) : List (Mail Inbound) :=
  .replicate (d.todo.count box) d.mail

/-- The commands of a connection that are on their way to the simulation. -/
def inFlight (box : MailboxId) (client : ConnectionId) (i : Intake) : List Command :=
  Mail.commandsOf client (i.router.queued box) ++
    Mail.commandsOf client ((i.underway client).elim [] (remainder box))

/-- Each topic has the mailbox once at most, clients publish commands of their own, and
announcements are no commands. -/
structure Fed (box : MailboxId) (i : Intake) : Prop where
  once : ∀ entry ∈ i.router.topics, entry.2.count box ≤ 1
  own : ∀ client d, i.underway client = some d → d.mail.client = client
  announced : ∀ d ∈ i.announcing, ∃ account, d.mail.payload = .authenticated account

theorem commandOf_of_client_ne {mail : Mail Inbound} (h : mail.client ≠ c) :
    mail.commandOf c = none := by
  obtain ⟨client, payload, due⟩ := mail
  cases payload with
  | command command => exact if_neg h
  | authenticated account => rfl

theorem commandOf_of_authenticated {mail : Mail Inbound} {account : Account}
    (h : mail.payload = .authenticated account) : mail.commandOf c = none := by
  unfold Mail.commandOf
  rw [h]
  rfl

theorem commandsOf_replicate_of_none {mail : Mail Inbound} (h : mail.commandOf c = none) (n : Nat) :
    Mail.commandsOf c (.replicate n mail) = [] := by
  rw [Mail.commandsOf, List.filterMap_replicate, h]

theorem ofPacket_published {client : ConnectionId} {packet : Wire.Packet} {topic : Topic}
    {mail : Mail Inbound}
    (h : Routed.ofPacket now deadline client packet = .ok (.published topic mail)) :
    ∃ command, Command.catalog.decode packet = .ok (topic, command) ∧ mail.client = client ∧
      mail.payload = .command command := by
  unfold Routed.ofPacket at h
  split at h
  · next topic' command hdecode =>
      cases h
      exact ⟨command, hdecode, rfl, rfl⟩
  · split at h <;> cases h

theorem commandOf_of_command {mail : Mail Inbound} {command : Command}
    (h : mail.payload = .command command) (hclient : mail.client = c) :
    mail.commandOf c = some command := by
  unfold Mail.commandOf
  rw [h]
  exact if_pos hclient

/-! ## One step -/

/-- What a consumer does to its mailbox leaves part of what was queued. -/
theorem queued_act_sublist (r : Router Inbound) (id : MailboxId) (action : Router.ConsumerAction)
    (box : MailboxId) : ((r.act id action).2.queued box).Sublist (r.queued box) := by
  cases action with
  | take =>
      unfold Router.act
      cases h : r.receive id with
      | mk found r' =>
          cases found with
          | mail mail =>
              obtain ⟨hfirst, hothers, -⟩ := Router.queued_of_receive h
              show (r'.queued box).Sublist _
              by_cases heq : box = id
              · subst heq
                rw [hfirst]
                exact List.sublist_cons_self ..
              · rw [hothers box heq]
          | ended => exact Router.eq_of_receive h (by rintro _ ⟨⟩) ▸ .refl _
          | nothing => exact Router.eq_of_receive h (by rintro _ ⟨⟩) ▸ .refl _
  | close =>
      have hsame := Router.queued_modifyBox_of_queue_eq r id Mailbox.close (fun _ => rfl)
        (fun _ => rfl) box
      exact hsame ▸ .refl _
  | drop =>
      show ((r.modifyBox id Mailbox.drop).queued box).Sublist _
      rw [Router.queued_drop]
      split
      · exact List.nil_sublist _
      · exact .refl _

theorem topics_receive (r : Router Inbound) (id : MailboxId) :
    (r.receive id).2.topics = r.topics := by
  cases h : r.receive id with
  | mk found r' =>
      cases found with
      | mail mail => exact (Router.queued_of_receive h).2.2
      | ended => exact congrArg Router.topics (Router.eq_of_receive h (by rintro _ ⟨⟩))
      | nothing => exact congrArg Router.topics (Router.eq_of_receive h (by rintro _ ⟨⟩))

theorem topics_act (r : Router Inbound) (id : MailboxId) (action : Router.ConsumerAction) :
    (r.act id action).2.topics = r.topics := by
  cases action with
  | take =>
      have h := topics_receive r id
      cases hr : r.receive id with
      | mk found r' =>
          unfold Router.act
          rw [hr] at h ⊢
          cases found <;> exact h
  | close => rfl
  | drop => rfl

/-- A client sets out with a packet that can be decoded, unless it is on its way with another. -/
theorem depart_cases (deadline : Duration) (now : Instant) (i : Intake) (client : ConnectionId)
    (packet : Wire.Packet) :
    i.depart deadline now client packet = i ∨
      i.underway client = none ∧
        (i.depart deadline now client packet = { i with
          underway := Function.update i.underway client none } ∨
        ∃ topic command mail, Command.catalog.decode packet = .ok (topic, command) ∧
          mail.client = client ∧ mail.payload = .command command ∧
          i.depart deadline now client packet = { i with
            underway := Function.update i.underway client
              (some (i.router.publish (Routed.ticket client) topic mail)) }) := by
  unfold depart
  split
  · next routed hidle hrouted =>
      refine .inr ⟨hidle, ?_⟩
      cases routed with
      | skipped => exact .inl rfl
      | published topic mail =>
          obtain ⟨command, hdecode, rfl, hpayload⟩ := ofPacket_published hrouted
          exact .inr ⟨topic, command, mail, hdecode, rfl, hpayload, rfl⟩
  · exact .inl rfl

/-- What a publication is about stays the same; it puts copies of its mail into the mailboxes. -/
theorem bring_cases (now : Instant) (i : Intake) (client : ConnectionId) :
    i.bring now client = i ∨
      ∃ d d' router, i.underway client = some d ∧ d'.mail = d.mail ∧
        Router.Adds d.mail i.router d.todo router d'.todo ∧
        i.bring now client = { i with
          router
          underway := Function.update i.underway client (if d'.isDone then none else some d') } := by
  unfold bring
  split
  · exact .inl rfl
  · next d hd =>
      exact .inr ⟨d, (d.advance now i.router).2, (d.advance now i.router).1, hd,
        d.mail_advance now i.router, d.adds_advance now i.router, rfl⟩

theorem proclaim_cases (now : Instant) (i : Intake) (n : Nat) :
    i.proclaim now n = i ∨
      ∃ d d' router, d ∈ i.announcing ∧ d'.mail = d.mail ∧
        Router.Adds d.mail i.router d.todo router d'.todo ∧
        i.proclaim now n = { i with router, announcing := i.announcing.set n d' } := by
  unfold proclaim
  split
  · exact .inl rfl
  · next d hd =>
      exact .inr ⟨d, (d.advance now i.router).2, (d.advance now i.router).1,
        List.mem_of_getElem? hd, d.mail_advance now i.router, d.adds_advance now i.router, rfl⟩

theorem topics_transport (box : MailboxId) (deadline : Duration) (now : Instant) (i : Intake)
    (st : IntakeStep) : (i.transport box deadline now st).router.topics = i.router.topics := by
  cases st with
  | route client packet =>
      rcases i.depart_cases deadline now client packet with
        h | ⟨-, h | ⟨topic, command, mail, -, -, -, h⟩⟩ <;>
      exact congrArg (·.router.topics) h
  | publish client =>
      rcases i.bring_cases now client with h | ⟨d, d', router, -, -, hadds, h⟩
      · exact congrArg (·.router.topics) h
      · exact (congrArg (·.router.topics) h).trans hadds.topics_eq
  | announce client account => rfl
  | proceed n =>
      rcases i.proclaim_cases now n with h | ⟨d, d', router, -, -, hadds, h⟩
      · exact congrArg (·.router.topics) h
      · exact (congrArg (·.router.topics) h).trans hadds.topics_eq
  | take => exact topics_receive ..
  | consume mailbox action => exact topics_act ..
  | happen e => rfl

theorem own_transport (h : i.Fed box) (deadline : Duration) (now : Instant) (st : IntakeStep)
    {client : ConnectionId} {d : Delivery Inbound}
    (hd : (i.transport box deadline now st).underway client = some d) : d.mail.client = client := by
  cases st with
  | route c packet =>
      rcases i.depart_cases deadline now c packet with
        heq | ⟨-, heq | ⟨topic, command, mail, -, hclient, -, heq⟩⟩ <;>
      rw [transport, heq] at hd
      · exact h.own client d hd
      · dsimp only at hd
        rw [Function.update_apply] at hd
        split at hd
        · cases hd
        · exact h.own client d hd
      · dsimp only at hd
        rw [Function.update_apply] at hd
        split at hd
        · next hc =>
            cases hd
            exact hclient.trans hc.symm
        · exact h.own client d hd
  | publish c =>
      rcases i.bring_cases now c with heq | ⟨d₀, d', router, hunder, hmail, -, heq⟩ <;>
      rw [transport, heq] at hd
      · exact h.own client d hd
      · dsimp only at hd
        rw [Function.update_apply] at hd
        split at hd
        · next hc =>
            split at hd
            · cases hd
            · cases hd
              rw [hmail, hc]
              exact h.own c d₀ hunder
        · exact h.own client d hd
  | announce c account => exact h.own client d hd
  | proceed n =>
      rcases i.proclaim_cases now n with heq | ⟨d₀, d', router, -, -, -, heq⟩ <;>
      rw [transport, heq] at hd <;>
      exact h.own client d hd
  | take => exact h.own client d hd
  | consume mailbox action => exact h.own client d hd
  | happen e => exact h.own client d hd

theorem announced_transport (h : i.Fed box) (deadline : Duration) (now : Instant) (st : IntakeStep)
    {d : Delivery Inbound} (hd : d ∈ (i.transport box deadline now st).announcing) :
    ∃ account, d.mail.payload = .authenticated account := by
  cases st with
  | route c packet =>
      rcases i.depart_cases deadline now c packet with
        heq | ⟨-, heq | ⟨topic, command, mail, -, -, -, heq⟩⟩ <;>
      rw [transport, heq] at hd <;>
      exact h.announced d hd
  | publish c =>
      rcases i.bring_cases now c with heq | ⟨d₀, d', router, -, -, -, heq⟩ <;>
      rw [transport, heq] at hd <;>
      exact h.announced d hd
  | announce c account =>
      rcases List.mem_append.mp hd with hm | hm
      · exact h.announced d hm
      · obtain rfl := List.mem_singleton.mp hm
        exact ⟨account, rfl⟩
  | proceed n =>
      rcases i.proclaim_cases now n with heq | ⟨d₀, d', router, hm₀, hmail, -, heq⟩ <;>
      rw [transport, heq] at hd
      · exact h.announced d hd
      · rcases List.mem_or_eq_of_mem_set hd with hm | rfl
        · exact h.announced d hm
        · exact hmail ▸ h.announced d₀ hm₀
  | take => exact h.announced d hd
  | consume mailbox action => exact h.announced d hd
  | happen e => exact h.announced d hd

theorem Fed.step (h : i.Fed box) (deadline : Duration) (now : Instant) (st : IntakeStep) :
    (i.step box deadline now st).Fed box := by
  refine ⟨?_, fun client d hd => own_transport h deadline now st hd,
    fun d hd => announced_transport h deadline now st hd⟩
  intro entry hm
  have htopics : (i.step box deadline now st).router.topics = i.router.topics :=
    topics_transport box deadline now i st
  exact h.once entry (htopics ▸ hm)

theorem commandsOf_queued_of_none {router router' : Router Inbound} {mail : Mail Inbound}
    {todo todo' : List MailboxId} (hadds : Router.Adds mail router todo router' todo')
    (hnone : mail.commandOf c = none) (box : MailboxId) :
    Mail.commandsOf c (router'.queued box) = Mail.commandsOf c (router.queued box) := by
  obtain ⟨n, hqueued, -⟩ := hadds.queued box
  have hcopies := commandsOf_replicate_of_none hnone n
  unfold Mail.commandsOf at hcopies ⊢
  rw [hqueued, List.filterMap_append, hcopies, List.append_nil]

theorem inFlight_depart_sublist (h : i.Fed box) (deadline : Duration) (now : Instant)
    (client c : ConnectionId) (packet : Wire.Packet) :
    ((i.depart deadline now client packet).inFlight box c).Sublist
      (i.inFlight box c ++ (i.routed? c (.route client packet)).toList) := by
  rcases i.depart_cases deadline now client packet with
    heq | ⟨hidle, heq | ⟨topic, command, mail, hdecode, hclient, hpayload, heq⟩⟩
  · rw [heq]
    exact List.sublist_append_left ..
  · have hsame : Function.update i.underway client none = i.underway := by
      rw [← hidle, Function.update_eq_self]
    rw [heq, hsame]
    exact List.sublist_append_left ..
  · rw [heq]
    by_cases hc : client = c
    · subst hc
      have hrouted : i.routed? client (.route client packet) = some command := by
        have hown : client = client ∧ i.underway client = none := ⟨rfl, hidle⟩
        have hcommand : ((Command.catalog.decode packet).toOption.map (·.2)) = some command := by
          rw [hdecode]
          rfl
        exact (if_pos hown).trans hcommand
      have honce : (i.router.subscribers topic).count box ≤ 1 :=
        Router.count_subscribers_le (b := fun _ => 1) h.once topic
      have hcopies : (remainder box (i.router.publish (Routed.ticket client) topic mail)).Sublist
          [mail] := (List.replicate_sublist_replicate _).mpr honce
      have hone : Mail.commandsOf client [mail] = [command] := by
        rw [Mail.commandsOf, List.filterMap_cons, commandOf_of_command hpayload hclient]
        rfl
      unfold inFlight
      dsimp only
      rw [hrouted, hidle, Function.update_self, Option.toList_some, ← hone]
      simp only [Option.elim_none, Option.elim_some, Mail.commandsOf, List.filterMap_nil,
        List.append_nil]
      exact (hcopies.filterMap _).append_left _
    · unfold inFlight
      dsimp only
      rw [Function.update_of_ne (Ne.symm hc)]
      exact List.sublist_append_left ..

theorem inFlight_bring_sublist (h : i.Fed box) (now : Instant) (client c : ConnectionId) :
    ((i.bring now client).inFlight box c).Sublist (i.inFlight box c) := by
  rcases i.bring_cases now client with heq | ⟨d, d', router, hunder, hmail, hadds, heq⟩
  · rw [heq]
  · rw [heq]
    by_cases hc : client = c
    · subst hc
      -- A copy that came into the mailbox is no longer to be delivered to it.
      obtain ⟨n, hqueued, hcount⟩ := hadds.queued box
      have hrest : ((if d'.isDone then none else some d').elim [] (remainder box)).Sublist
          (.replicate (d'.todo.count box) d.mail) := by
        split
        · exact List.nil_sublist _
        · show List.Sublist (.replicate _ d'.mail) _
          rw [hmail]
      unfold inFlight Mail.commandsOf
      dsimp only
      rw [hqueued, hunder, Function.update_self, List.filterMap_append, List.append_assoc,
        ← List.filterMap_append]
      refine List.Sublist.append_left (List.Sublist.filterMap _ ?_) _
      refine (hrest.append_left _).trans ?_
      rw [List.replicate_append_replicate]
      exact (List.replicate_sublist_replicate _).mpr hcount
    · have hother : d.mail.client ≠ c := fun hsame =>
        hc ((h.own client d hunder).symm.trans hsame)
      have hnone := commandOf_of_client_ne hother
      unfold inFlight
      dsimp only
      rw [commandsOf_queued_of_none hadds hnone, Function.update_of_ne (Ne.symm hc)]

theorem inFlight_proclaim (h : i.Fed box) (now : Instant) (n : Nat) (c : ConnectionId) :
    (i.proclaim now n).inFlight box c = i.inFlight box c := by
  rcases i.proclaim_cases now n with heq | ⟨d, d', router, hm, -, hadds, heq⟩
  · rw [heq]
  · obtain ⟨account, hpayload⟩ := h.announced d hm
    unfold inFlight
    rw [heq, commandsOf_queued_of_none hadds (commandOf_of_authenticated hpayload)]

theorem inFlight_take (box : MailboxId) (i : Intake) (c : ConnectionId) :
    (i.event? box .take).toList.filterMap (·.commandOf c) ++
      Intake.inFlight box c { i with router := (i.router.receive box).2 } = i.inFlight box c := by
  cases h : i.router.receive box with
  | mk found r' =>
      have hother : (∀ mail, found ≠ .mail mail) → i.event? box .take = none →
          (i.event? box .take).toList.filterMap (·.commandOf c) ++
            Intake.inFlight box c { i with router := r' } = i.inFlight box c := by
        intro hnone hevent
        rw [hevent, Router.eq_of_receive h hnone]
        rfl
      cases found with
      | mail mail =>
          obtain ⟨hfirst, -, -⟩ := Router.queued_of_receive h
          have hevent : i.event? box .take = some (.mail mail.client mail.payload) := by
            unfold event?
            rw [h]
          unfold inFlight Mail.commandsOf
          rw [hevent, hfirst, ← List.append_assoc, ← List.singleton_append,
            List.filterMap_append]
          rfl
      | ended => exact hother (by rintro _ ⟨⟩) (by unfold event?; rw [h])
      | nothing => exact hother (by rintro _ ⟨⟩) (by unfold event?; rw [h])

/-- What reaches the simulation was on its way, and only what is routed sets out. -/
theorem Fed.inFlight_step (h : i.Fed box) (deadline : Duration) (now : Instant) (st : IntakeStep)
    (c : ConnectionId) :
    ((i.event? box st).toList.filterMap (·.commandOf c) ++
      (i.step box deadline now st).inFlight box c).Sublist
      (i.inFlight box c ++ (i.routed? c st).toList) := by
  show List.Sublist (_ ++ (i.transport box deadline now st).inFlight box c) _
  cases st with
  | route client packet => exact inFlight_depart_sublist h deadline now client c packet
  | publish client =>
      exact (inFlight_bring_sublist h now client c).trans (List.sublist_append_left ..)
  | announce client account => exact List.sublist_append_left ..
  | proceed n =>
      show List.Sublist ((i.proclaim now n).inFlight box c) _
      rw [inFlight_proclaim h]
      exact List.sublist_append_left ..
  | take =>
      show List.Sublist (_ ++ Intake.inFlight box c { i with router := (i.router.receive box).2 }) _
      rw [inFlight_take]
      exact List.sublist_append_left ..
  | consume mailbox action =>
      have hqueue := (queued_act_sublist i.router mailbox action box).filterMap (Mail.commandOf c)
      exact (hqueue.append_right _).trans (List.sublist_append_left ..)
  | happen e =>
      have hsilent : (i.event? box (.happen e)).toList.filterMap (·.commandOf c) = [] := by
        cases e <;> rfl
      rw [hsilent]
      exact List.sublist_append_left ..

/-! ## A run -/

/-- What the simulation is told of a connection is, in order, what was on its way and what the
connection routes. -/
theorem Fed.told_sublist (h : i.Fed box) (deadline : Duration)
    (steps : List (Instant × IntakeStep)) (c : ConnectionId) :
    ((i.events box deadline steps).filterMap (·.commandOf c) ++
      (i.run box deadline steps).inFlight box c).Sublist
      (i.inFlight box c ++ i.routed box deadline c steps) := by
  induction steps generalizing i with
  | nil => exact (List.append_nil (i.inFlight box c)).symm ▸ .refl _
  | cons st rest ih =>
      have hfirst := h.inFlight_step deadline st.1 st.2 c
      have hrest := ih (h.step deadline st.1 st.2)
      rw [events, List.filterMap_append, routed, List.append_assoc,
        ← List.append_assoc (i.inFlight box c)]
      refine (hrest.append_left _).trans ?_
      rw [← List.append_assoc]
      exact hfirst.append_right _

theorem fed_start (setup : SimulationSetup) {router : Router Inbound}
    (hbox : ∀ entry ∈ router.topics, entry.2.count box ≤ 1) : (start setup router).Fed box where
  once := hbox
  own := nofun
  announced := nofun

theorem inFlight_start (setup : SimulationSetup) {router : Router Inbound}
    (hempty : router.queued box = []) (c : ConnectionId) :
    (start setup router).inFlight box c = [] := by
  unfold inFlight
  rw [show (start setup router).router.queued box = [] from hempty]
  rfl

structure Orderly (setup : SimulationSetup) (box : MailboxId) (deadline : Duration)
    (router : Router Inbound) (steps : List (Instant × IntakeStep)) : Prop where
  /-- The simulation of the run is one that certain events reached, in order. -/
  simulation_eq : ((start setup router).run box deadline steps).simulation =
    (Simulation.new setup .empty).run ((start setup router).events box deadline steps)
  /-- Each of its ticks is a sequence of deeds. -/
  ticks : ∀ before delta after,
    (start setup router).events box deadline steps = before ++ .tick delta :: after →
      ((Simulation.new setup .empty).run before).Ticks setup.rules delta
  /-- The commands that are applied for a connection were routed by it, in this order. -/
  applied : ∀ c, ((Simulation.new setup .empty).applied setup.rules c
      ((start setup router).events box deadline steps)).Sublist
    ((start setup router).routed box deadline c steps)
  /-- A command concerns the entity and the session of the connection it is applied for. -/
  attributed : ∀ p ∈ (Simulation.new setup .empty).scenes setup.rules
      ((start setup router).events box deadline steps),
    ∀ h client command, p.deed = .obey h client command → p.Attributed h client command
  /-- A session stays the same one until there is none. -/
  lasting : ∀ before e after c x y,
    (start setup router).events box deadline steps = before ++ e :: after →
      ((Simulation.new setup .empty).run before).lobby.session? c = some x →
      (((Simulation.new setup .empty).run before).step e).lobby.session? c = some y →
      y.bond = x.bond
  /-- Once there is none, only commands that the simulation is told of afterwards are applied. -/
  renewed : ∀ before after c,
    (start setup router).events box deadline steps = before ++ after →
      ((Simulation.new setup .empty).run before).lobby.session? c = none →
      (((Simulation.new setup .empty).run before).applied setup.rules c after).Sublist
        (after.filterMap (·.commandOf c))

/-- Whatever the clients route, however their packets and those of others get about, and whatever
else happens: each command is applied in the order its connection routed it, at most once, for the
session and the entity of that connection only, and no session inherits commands of another. -/
theorem orderly_run (setup : SimulationSetup) (deadline : Duration) {router : Router Inbound}
    (hbox : ∀ entry ∈ router.topics, entry.2.count box ≤ 1) (hempty : router.queued box = [])
    (steps : List (Instant × IntakeStep)) : Orderly setup box deadline router steps := by
  have hregular : ∀ events, ((Simulation.new setup .empty).run events).Regular setup.rules :=
    (Simulation.regular_new setup).run
  refine ⟨simulation_run _ steps, ?_, ?_, ?_, ?_, ?_⟩
  · intro before delta after _
    exact (hregular before).ticks delta
  · intro c
    have happlied := (Simulation.regular_new setup).applied_sublist
      ((start setup router).events box deadline steps) c
    have htold := (fed_start setup hbox).told_sublist deadline steps c
    have hpending : (Simulation.new setup .empty).lobby.pending c = [] := rfl
    rw [inFlight_start setup hempty, List.nil_append] at htold
    rw [hpending, List.nil_append] at happlied
    exact ((List.sublist_append_left ..).trans happlied).trans
      ((List.sublist_append_left ..).trans htold)
  · intro p hp h client command hd
    exact ((Simulation.regular_new setup).proper hp).attributed hd
  · intro before e after c x y _ hx hy
    exact (hregular before).bond_eq_of_step e hx hy
  · intro before after c _ hnone
    have happlied := (hregular before).applied_sublist after c
    rw [Lobby.pending_of_none hnone, List.nil_append] at happlied
    exact (List.sublist_append_left ..).trans happlied

/-- A mailbox has one place: of three commands the second is given up after the publish timeout. -/
theorem orderly_of_late :
    let setup : SimulationSetup := ⟨1, ⟨2, ⟨50⟩⟩, ⟨4, 4⟩⟩
    let subscribed := (Router.new ⟨.ofMillis 100, 1⟩ : Router Inbound).subscribe .commands
    let router := (subscribed.2.attach .chat subscribed.1).attach .authenticated subscribed.1
    let steps : List (Instant × IntakeStep) :=
      [(0, .happen (.register (.v4 [127, 0, 0, 1] 4000) 8)),
        (0, .announce 1 ⟨⟨5⟩, "ada", "x"⟩), (1, .proceed 0), (2, .take),
        (3, .route 1 (Command.chat "hi").toPacket), (4, .publish 1),
        (5, .route 1 Command.logout.toPacket), (6, .publish 1), (200, .publish 1),
        (201, .route 1 (Command.ping 7).toPacket), (202, .publish 1), (203, .take),
        (204, .publish 1), (205, .take), (206, .happen (.tick ⟨50⟩))]
    (∀ entry ∈ router.topics, entry.2.count subscribed.1 ≤ 1) ∧
      router.queued subscribed.1 = [] ∧
      (start setup router).routed subscribed.1 ⟨0⟩ 1 steps = [.chat "hi", .logout, .ping 7] ∧
      (Simulation.new setup .empty).applied setup.rules 1
        ((start setup router).events subscribed.1 ⟨0⟩ steps) = [.chat "hi", .ping 7] ∧
      Orderly setup subscribed.1 ⟨0⟩ router steps := by
  intro setup subscribed router steps
  have hbox : ∀ entry ∈ router.topics, entry.2.count subscribed.1 ≤ 1 := by decide +kernel
  have hempty : router.queued subscribed.1 = [] := by decide +kernel
  exact ⟨hbox, hempty, by decide +kernel, by decide +kernel,
    orderly_run setup ⟨0⟩ hbox hempty steps⟩

end Intake

end Realm
