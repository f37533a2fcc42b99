import Realm.Proofs.Router.Stock
import Realm.Proofs.Router.Visits

/-!
# What a broadcast reaches

A broadcast visits every mailbox that some topic holds, each of them once, and goes on past those
that stay full. Main statement: however a router was used before, and in whatever order its topics
are gone through, a broadcast leaves at most one copy at a mailbox, none at a closed one, and counts
just these copies. If no consumer acts meanwhile, the copies go to the open mailboxes with a place,
the wait is the publish timeout for each of the open ones without, and the order does not matter.
-/

namespace Realm

variable {α : Type}

/-! ## The queue of one mailbox -/

def leftOf (id : MailboxId) (queue : List (Mail α)) (actions : List Delivery.Timed) :
    List (Mail α) :=
  actions.foldl (fun queue a =>
    if a.mailbox = some id then
      match a.action with
      | .take => queue.tail
      | .close => queue
      | .drop => []
    else queue) queue

theorem leftOf_append (id : MailboxId) (queue : List (Mail α)) (first rest : List Delivery.Timed) :
    leftOf id queue (first ++ rest) = leftOf id (leftOf id queue first) rest := List.foldl_append

namespace Board

variable {b : Board α} {mail : Mail α} {id : MailboxId}

theorem queue_acts (b : Board α) (actions : List Delivery.Timed) (id : MailboxId) :
    (b.acts actions).queue id = leftOf id (b.queue id) actions := by
  induction actions generalizing b with
  | nil => rfl
  | cons a rest ih =>
      calc ((b.perform a).2.acts rest).queue id
          = leftOf id ((b.perform a).2.queue id) rest := ih (b.perform a).2
        _ = leftOf id (b.queue id) (a :: rest) := by rw [queue_perform]; rfl

theorem spares_acts (hn : (b.lists.map (·.1)).Nodup) (actions : List Delivery.Timed) :
    b.Spares (fun id => actions.any (closes · id)) (b.acts actions) := by
  induction actions generalizing b with
  | nil => exact .refl hn
  | cons a rest ih =>
      have hperform := spares_perform hn a
      exact hperform.trans (ih hperform.keys_nodup)

end Board

/-! ## Rounds -/

/-- The visits of a delivery that goes on past the mailboxes that stay full. -/
structure Rounds (mail : Mail α) (todo : List MailboxId) (now : Instant) (start : Board α)
    (visits : List (Visit α)) (done : List Delivery.Timed) (stop : Board α) (time : Instant) :
    Prop where
  visited : visits.map (·.mailbox) = todo
  successive : Successive mail start now done visits stop time
  fair : ∀ v ∈ visits, v.Fair (v.arrival + start.config.publishTimeout.millis)

theorem Rounds.cons {mail : Mail α} {todo : List MailboxId} {v : Visit α} {visits : List (Visit α)}
    {done : List Delivery.Timed} {stop : Board α} {time : Instant}
    (hfair : v.Fair (v.arrival + v.before.config.publishTimeout.millis))
    (h : Rounds mail todo v.departure (v.after mail) visits done stop time) :
    Rounds mail (v.mailbox :: todo) v.arrival v.before (v :: visits) (v.during ++ done) stop
      time where
  visited := congrArg (v.mailbox :: ·) h.visited
  successive := .cons v h.successive
  fair := List.forall_mem_cons.mpr ⟨hfair, fun u hu => v.config_after mail ▸ h.fair u hu⟩

def copies (visits : List (Visit α)) : List MailboxId :=
  (visits.filter (·.verdict = .free)).map (·.mailbox)

namespace Board

/-- A delivery that goes on past the mailboxes that stay full makes its rounds, and after its end
the consumers act undisturbed. What they did not do before its end might as well have been left
out. -/
theorem exists_rounds (mail : Mail α) (todo : List MailboxId) (actions : List Delivery.Timed)
    (now : Instant) (b : Board α) : ∃ visits done left stop time,
      actions = done ++ left ∧ Rounds mail todo now b visits done stop time ∧
      ∀ more, more <+: left → ∃ taken, deliver mail true todo (done ++ more) now b =
        (outcome visits true more time stop).after taken := by
  induction todo generalizing actions now b with
  | nil =>
      refine ⟨[], [], actions, b, now, rfl, ⟨rfl, .nil b now, by simp⟩, fun more _ => ⟨[], ?_⟩⟩
      change playOut true more now b = outcome [] true more now b
      rw [outcome, List.countP_nil, ← (playOut_eq true more now b).2.2]
  | cons id rest ih =>
      obtain ⟨during, htells⟩ := exists_tells id actions b
        (Nat.le_add_right now b.config.publishTimeout.millis)
      generalize await id (now + b.config.publishTimeout.millis) actions now b = w at htells
      let v : Visit α := ⟨id, now, w.time, b, during, w.verdict⟩
      have hv : Tells v (v.arrival + v.before.config.publishTimeout.millis) actions w := htells
      obtain ⟨visits, done, left, stop, time, hactions, hrounds, hdeliver⟩ :=
        ih w.actions v.departure (v.after mail)
      refine ⟨v :: visits, during ++ done, left, stop, time, ?_, hrounds.cons hv.fair,
        fun more hmore => ?_⟩
      · rw [List.append_assoc, ← hactions]
        exact hv.actions_eq
      · obtain ⟨taken, hrest⟩ := hdeliver more hmore
        have hprefix : done ++ more <+: w.actions := by
          rw [hactions]
          exact (List.prefix_append_right_inj done).mpr hmore
        have hcons : deliver mail true (v.mailbox :: rest) _ _ _ = _ :=
          deliver_cons hv (fun _ => rfl) hprefix
        rw [hrest] at hcons
        refine ⟨w.taken ++ taken, ?_⟩
        rw [List.append_assoc]
        refine hcons.trans ?_
        simp [outcome, Delivered.after, List.countP_cons]

/-- How the rounds of a delivery end. -/
theorem exists_rounds_of_deliver (mail : Mail α) (todo : List MailboxId)
    (actions : List Delivery.Timed) (now : Instant) (b : Board α) :
    ∃ visits done left stop time, actions = done ++ left ∧
      Rounds mail todo now b visits done stop time ∧
      (deliver mail true todo actions now b).complete = true ∧
      (deliver mail true todo actions now b).reached = (copies visits).length ∧
      (deliver mail true todo actions now b).board = stop.acts left ∧
      (deliver mail true todo done now b).time = time := by
  obtain ⟨visits, done, left, stop, time, hactions, hrounds, hdeliver⟩ :=
    exists_rounds mail todo actions now b
  obtain ⟨taken, hall⟩ := hdeliver left (List.prefix_refl left)
  obtain ⟨taken', hdone⟩ := hdeliver [] List.nil_prefix
  rw [← hactions] at hall
  rw [List.append_nil] at hdone
  obtain ⟨hboard, hcomplete, -⟩ := playOut_eq true left time stop
  refine ⟨visits, done, left, stop, time, hactions, hrounds, ?_, ?_, ?_, ?_⟩
  · rw [hall]
    exact hcomplete
  · rw [hall, copies, List.length_map, ← List.countP_eq_length_filter]
    rfl
  · rw [hall]
    exact hboard
  · rw [hdone]
    rfl

end Board

/-! ## One visit among others -/

namespace Successive

variable {mail : Mail α} {now time : Instant} {start stop : Board α} {visits : List (Visit α)}
  {done : List Delivery.Timed} {v : Visit α} {id : MailboxId}

/-- What came before a visit and what came after it. -/
theorem split (h : Successive mail start now done visits stop time) (hv : v ∈ visits) :
    ∃ earlier later first rest, visits = earlier ++ v :: later ∧ done = first ++ v.during ++ rest ∧
      Successive mail start now first earlier v.before v.arrival ∧
      Successive mail (v.after mail) v.departure rest later stop time := by
  induction h with
  | nil b now => exact absurd hv List.not_mem_nil
  | @cons actions visits b time u hrest ih =>
      rcases List.mem_cons.mp hv with rfl | hv
      · exact ⟨[], visits, [], actions, rfl, rfl, .nil v.before v.arrival, hrest⟩
      · obtain ⟨earlier, later, first, rest, rfl, rfl, hfirst, hlater⟩ := ih hv
        exact ⟨u :: earlier, later, u.during ++ first, rest, rfl, by simp [List.append_assoc],
          .cons u hfirst, hlater⟩

theorem config_eq (h : Successive mail start now done visits stop time) :
    stop.config = start.config := by
  induction h with
  | nil b now => rfl
  | cons v rest ih => exact ih.trans (v.config_after mail)

theorem spared_iff : Spared visits id ↔ id ∉ copies visits := by
  simp only [Spared, copies, List.mem_map, List.mem_filter, decide_eq_true_eq, not_exists, not_and]
  exact ⟨fun h v hv hid => h v hv.1 hid hv.2, fun h v hv hid hfree => h v ⟨hv, hfree⟩ hid⟩

/-- A mailbox with a copy, between what the consumers did `before` it came and `after`. Its own
consumer had not closed it and there was a place. -/
structure Copied (capacity : Nat) (mail : Mail α) (id : MailboxId) (queue last : List (Mail α))
    (before after : List Delivery.Timed) : Prop where
  closes_eq : ∀ a ∈ before, Board.closes a id = false
  room : (leftOf id queue before).length < capacity
  last_eq : last = leftOf id (leftOf id queue before ++ [mail]) after

theorem exists_copied {due : Visit α → Instant}
    (h : Successive mail start now done visits stop time)
    (hkeys : (start.lists.map (·.1)).Nodup) (hfair : ∀ v ∈ visits, v.Fair (due v))
    (honce : (visits.map (·.mailbox)).Nodup) (hid : id ∈ copies visits) :
    start.isOpen id = true ∧ ∃ before after, done = before ++ after ∧ Copied
      start.config.mailboxCapacity mail id (start.queue id) (stop.queue id) before after := by
  obtain ⟨v, hv, rfl⟩ := List.mem_map.mp hid
  obtain ⟨hv, hfree⟩ := List.mem_filter.mp hv
  have hfree : v.verdict = .free := of_decide_eq_true hfree
  obtain ⟨earlier, later, first, rest, rfl, rfl, hfirst, hlater⟩ := h.split hv
  -- The mailbox is visited only here, so no other visit leaves a copy.
  rw [List.map_append, List.map_cons, List.nodup_append] at honce
  obtain ⟨-, honce, hne⟩ := honce
  have hearlier : Spared earlier v.mailbox := fun u hu heq =>
    absurd heq (hne _ (List.mem_map_of_mem hu) _ List.mem_cons_self)
  have hlate : Spared later v.mailbox := fun u hu heq =>
    absurd (heq ▸ List.mem_map_of_mem hu) (List.nodup_cons.mp honce).1
  obtain ⟨hlists, hqueues⟩ := hfirst.alike.acts v.during
  rw [← Board.acts_append] at hlists hqueues
  obtain ⟨hopen, hroom, -⟩ := (hfair v (by simp)).of_free hfree
  have hqueue : v.waited.queue v.mailbox =
      leftOf v.mailbox (start.queue v.mailbox) (first ++ v.during) :=
    (hqueues v.mailbox hearlier).trans (Board.queue_acts ..)
  have hconfig : v.waited.config = start.config :=
    (Board.config_acts v.before v.during).trans hfirst.config_eq
  have hstill : (start.acts (first ++ v.during)).isOpen v.mailbox = true := by
    rw [Board.isOpen, ← hlists]
    exact hopen
  rw [(Board.spares_acts hkeys _).isOpen_eq, Bool.and_eq_true, Bool.not_eq_true',
    List.any_eq_false] at hstill
  refine ⟨hstill.2, first ++ v.during, rest, rfl, ?_, ?_, ?_⟩
  · exact fun a ha => Bool.eq_false_iff.mpr (hstill.1 a ha)
  · rwa [hqueue, hconfig] at hroom
  · have hafter : (v.after mail).queue v.mailbox = v.waited.queue v.mailbox ++ [mail] := by
      simp only [Visit.after, hfree, Board.setQueue, if_true]
    rw [hlater.alike.2 v.mailbox hlate, Board.queue_acts, hafter, hqueue]

end Successive

/-! ## While no consumer acts -/

namespace Board

variable {b : Board α} {id : MailboxId} {todo : List MailboxId}

def hasRoom (b : Board α) (id : MailboxId) : Bool :=
  b.isOpen id && (b.queue id).length < b.config.mailboxCapacity

def isFull (b : Board α) (id : MailboxId) : Bool :=
  b.isOpen id && b.config.mailboxCapacity ≤ (b.queue id).length

/-- How a delivery ends during which no consumer acts. -/
structure Calm (mail : Mail α) (todo : List MailboxId) (now : Instant) (b : Board α)
    (d : Delivered α) : Prop where
  queue_eq : ∀ id, d.board.queue id =
    if id ∈ todo.filter b.hasRoom then b.queue id ++ [mail] else b.queue id
  reached_eq : d.reached = (todo.filter b.hasRoom).length
  taken_eq : d.taken = []
  time_eq : d.time = now + (todo.filter b.isFull).length * b.config.publishTimeout.millis

theorem filter_setQueue (hid : id ∉ todo) (queue : List (Mail α)) :
    todo.filter (b.setQueue id queue).hasRoom = todo.filter b.hasRoom ∧
      todo.filter (b.setQueue id queue).isFull = todo.filter b.isFull := by
  have hqueue (other) (hother : other ∈ todo) :
      (b.setQueue id queue).queue other = b.queue other := by
    refine if_neg fun heq => hid ?_
    rwa [← heq]
  constructor <;> refine List.filter_congr fun other hother => ?_
  · rw [hasRoom, hqueue other hother]
    rfl
  · rw [isFull, hqueue other hother]
    rfl

namespace Calm

variable {mail : Mail α} {now : Instant} {d : Delivered α}

theorem of_closed (h : Calm mail todo now b d) (hclosed : b.isOpen id = false) :
    Calm mail (id :: todo) now b d := by
  have hroom : ¬ b.hasRoom id = true := by simp [hasRoom, hclosed]
  have hfull : ¬ b.isFull id = true := by simp [isFull, hclosed]
  refine ⟨?_, ?_, h.taken_eq, ?_⟩
  · rw [List.filter_cons_of_neg hroom]
    exact h.queue_eq
  · rw [List.filter_cons_of_neg hroom]
    exact h.reached_eq
  · rw [List.filter_cons_of_neg hfull]
    exact h.time_eq

theorem of_room (h : Calm mail todo now (b.setQueue id (b.queue id ++ [mail])) d) (hid : id ∉ todo)
    (hopen : b.isOpen id = true) (hplace : (b.queue id).length < b.config.mailboxCapacity) :
    Calm mail (id :: todo) now b { d with reached := d.reached + 1 } := by
  have hroom : b.hasRoom id = true := by simp [hasRoom, hopen, hplace]
  have hfull : ¬ b.isFull id = true := by simp [isFull, hplace]
  obtain ⟨hrooms, hfulls⟩ := filter_setQueue (b := b) hid (b.queue id ++ [mail])
  obtain ⟨hqueue, hreached, htaken, htime⟩ := h
  rw [hrooms] at hqueue hreached
  rw [hfulls] at htime
  refine ⟨fun other => ?_, ?_, htaken, ?_⟩
  · rw [List.filter_cons_of_pos hroom]
    refine (hqueue other).trans ?_
    by_cases hother : other = id
    · subst hother
      simp [setQueue, hid]
    · simp [setQueue, hother]
  · rw [List.filter_cons_of_pos hroom]
    exact congrArg (· + 1) hreached
  · rw [List.filter_cons_of_neg hfull]
    exact htime

theorem of_full (h : Calm mail todo (now + b.config.publishTimeout.millis) b d)
    (hfull : b.Full id) : Calm mail (id :: todo) now b d := by
  have hroom : ¬ b.hasRoom id = true := by simp [hasRoom, hfull.2]
  have hfull : b.isFull id = true := by simp [isFull, hfull.1, hfull.2]
  refine ⟨?_, ?_, h.taken_eq, ?_⟩
  · rw [List.filter_cons_of_neg hroom]
    exact h.queue_eq
  · rw [List.filter_cons_of_neg hroom]
    exact h.reached_eq
  · rw [List.filter_cons_of_pos hfull, List.length_cons, Nat.succ_mul, Nat.add_comm (_ * _)]
    exact h.time_eq.trans (Nat.add_assoc ..)

end Calm

theorem await_of_full {now : Instant} (span : Nat) (hfull : b.Full id) :
    await id (now + span) [] now b = ⟨.stalled, b, now + span, [], []⟩ := by
  have hroom := Nat.not_lt.mpr hfull.2
  by_cases hlate : now + span ≤ now
  · have hspan : now = now + span := Nat.le_antisymm (Nat.le_add_right ..) hlate
    rw [await_of_late hfull.1 hroom hlate, ← hspan]
  · exact await_of_until hfull.1 hroom hlate nofun

theorem calm_deliver (mail : Mail α) (hn : todo.Nodup) (now : Instant) (b : Board α) :
    Calm mail todo now b (deliver mail true todo [] now b) := by
  induction todo generalizing now b with
  | nil => exact ⟨fun _ => rfl, rfl, rfl, by simp [deliver, playOut]⟩
  | cons id rest ih =>
      obtain ⟨hid, hn⟩ := List.nodup_cons.mp hn
      cases hopen : b.isOpen id with
      | false =>
          rw [deliver_of_closed (await_of_closed hopen) rfl]
          exact (ih hn now b).of_closed hopen
      | true =>
          by_cases hplace : (b.queue id).length < b.config.mailboxCapacity
          · rw [deliver_of_free (await_of_free hopen hplace) rfl]
            exact (ih hn now _).of_room hid hopen hplace
          · have hfull : b.Full id := ⟨hopen, Nat.not_lt.mp hplace⟩
            rw [deliver_of_passed (await_of_full _ hfull) rfl rfl]
            exact (ih hn _ b).of_full hfull

end Board

/-! ## The main statement -/

namespace Router

variable {r : Router α} {topics : List (Topic × List MailboxId)}

theorem nodup_eraseDups {β : Type} [BEq β] [LawfulBEq β] (l : List β) : l.eraseDups.Nodup := by
  induction l with
  | nil => simp
  | cons b rest ih =>
      rw [List.eraseDups_cons, eraseDups_filter, List.nodup_cons]
      exact ⟨by simp, ih.filter _⟩

/-- The mailboxes that some topic holds, each of them once. -/
def distinct (r : Router α) : List MailboxId := (r.topics.flatMap (·.2)).eraseDups

/-- A mailbox that takes mail and has a place for it. -/
def hasRoom (r : Router α) (id : MailboxId) : Bool :=
  !r.refuses id && (r.queued id).length < r.config.mailboxCapacity

/-- A mailbox that takes mail but has no place for it. -/
def isFull (r : Router α) (id : MailboxId) : Bool :=
  !r.refuses id && r.config.mailboxCapacity ≤ (r.queued id).length

theorem hasRoom_stock (r : Router α) : r.stock.hasRoom = r.hasRoom := by
  funext id
  rw [Board.hasRoom, isOpen_stock]
  rfl

theorem isFull_stock (r : Router α) : r.stock.isFull = r.isFull := by
  funext id
  rw [Board.isFull, isOpen_stock]
  rfl

theorem mem_distinct {id : MailboxId} : id ∈ r.distinct ↔ r.holds id = true := by
  simp [distinct, holds, List.mem_eraseDups]

/-- How a broadcast ended, said of a delivery on a board. -/
structure Mirrors (o : Delivery.Outcome α) (w : Board.Delivered α) : Prop where
  queued_eq : ∀ id, o.router.queued id = w.board.queue id
  refuses_eq : ∀ id, o.router.refuses id = !w.board.isOpen id
  succeeded_eq : o.delivery.succeeded = w.complete
  delivered_eq : o.delivery.delivered = w.reached
  taken_eq : o.taken = w.taken
  time_eq : o.time = w.time

theorem Idle.mirrors (h : r.Idle) (ticket : Nat) (mail : Mail α) (during : List Delivery.Timed)
    (now : Instant) : Mirrors ((r.broadcast ticket mail).run now r during)
      (Board.deliver mail true r.distinct during now r.stock) := by
  obtain ⟨hboard, hupkept, htaken, htime, htodo, hgaveUp, hdelivered⟩ :=
    h.run_ends (d := r.broadcast ticket mail) rfl during now
  refine ⟨fun id => congrArg (·.queue id) hboard, fun id => ?_, ?_, ?_, htaken, htime⟩
  · have hopen : Board.isOpen _ id = _ := hupkept.isOpen_board
    rw [hboard] at hopen
    exact Bool.not_eq_eq_eq_not.mp hopen.symm
  · calc _ = (((r.broadcast ticket mail).run now r during).delivery.todo.isEmpty &&
          !((r.broadcast ticket mail).run now r during).delivery.gaveUp) := rfl
      _ = (true && !!(Board.deliver mail true r.distinct during now r.stock).complete) :=
        congrArg₂ (fun todo gaveUp => List.isEmpty todo && !gaveUp) htodo hgaveUp
      _ = _ := by rw [Bool.true_and, Bool.not_not]
  · exact hdelivered.trans (Nat.zero_add _)

/-- What a broadcast did to a router: its visits, what the consumers did until its end and what they
have left, and the mailboxes and the instant of its end. -/
structure Broadcast (r : Router α) (ticket : Nat) (mail : Mail α) (during : List Delivery.Timed)
    (now : Instant) (visits : List (Visit α)) (done left : List Delivery.Timed) (stop : Board α)
    (time : Instant) : Prop where
  during_eq : during = done ++ left
  /-- A mailbox is open at the start exactly if the router does not refuse mail for it. -/
  isOpen_iff : ∀ id, r.stock.isOpen id = true ↔ r.refuses id = false
  /-- Every mailbox that some topic holds is visited, and each of them once. -/
  visited : visits.map (·.mailbox) = r.distinct
  once : r.distinct.Nodup ∧ ∀ id, id ∈ r.distinct ↔ r.holds id = true
  successive : Successive mail r.stock now done visits stop time
  fair : ∀ v ∈ visits, v.Fair (v.arrival + r.config.publishTimeout.millis)
  succeeded : ((r.broadcast ticket mail).run now r during).delivery.succeeded = true
  delivered_eq : ((r.broadcast ticket mail).run now r during).delivery.delivered =
    (copies visits).length
  copies_nodup : (copies visits).Nodup
  /-- A mailbox that is closed gets no copy. -/
  closed : ∀ id, r.refuses id = true → id ∉ copies visits
  copied : ∀ id ∈ copies visits, ∃ before after, during = before ++ after ∧
    Successive.Copied r.config.mailboxCapacity mail id (r.queued id)
      (((r.broadcast ticket mail).run now r during).router.queued id) before after
  /-- The queues of the other mailboxes are what the consumers alone would have made of them. -/
  spared : ∀ id, id ∉ copies visits →
    ((r.broadcast ticket mail).run now r during).router.queued id = leftOf id (r.queued id) during
  /-- Nobody is closed but by the consumers. -/
  refuses_eq : ∀ id, ((r.broadcast ticket mail).run now r during).router.refuses id =
    (r.refuses id || during.any (Board.closes · id))
  time_eq : ((r.broadcast ticket mail).run now r done).time = time
  time_le : time ≤ now + r.distinct.length * r.config.publishTimeout.millis

/-- How a broadcast ended during which no consumer acted. -/
structure Undisturbed (r : Router α) (mail : Mail α) (now : Instant) (o : Delivery.Outcome α) :
    Prop where
  succeeded : o.delivery.succeeded = true
  delivered_eq : o.delivery.delivered = (r.distinct.filter r.hasRoom).length
  queued_eq : ∀ id, o.router.queued id =
    if id ∈ r.distinct.filter r.hasRoom then r.queued id ++ [mail] else r.queued id
  refuses_eq : ∀ id, o.router.refuses id = r.refuses id
  taken_eq : o.taken = []
  time_eq : o.time = now + (r.distinct.filter r.isFull).length * r.config.publishTimeout.millis

/-- What a broadcast does, in whatever order the topics are gone through. -/
structure ReachesOnce (r : Router α) (ticket : Nat) (mail : Mail α) (now : Instant) : Prop where
  disturbed : ∀ topics, topics.Perm r.topics → ∀ during, ∃ visits done left stop time,
    (r.withTopics topics).Broadcast ticket mail during now visits done left stop time
  undisturbed : ∀ topics, topics.Perm r.topics →
    r.Undisturbed mail now (((r.withTopics topics).broadcast ticket mail).run now
      (r.withTopics topics) [])

theorem Idle.broadcast (h : r.Idle) (ticket : Nat) (mail : Mail α) (during : List Delivery.Timed)
    (now : Instant) : ∃ visits done left stop time,
      r.Broadcast ticket mail during now visits done left stop time := by
  obtain ⟨visits, done, left, stop, time, rfl, hrounds, hcomplete, hreached, hboard, htime⟩ :=
    Board.exists_rounds_of_deliver mail r.distinct during now r.stock
  have hend := h.mirrors ticket mail (done ++ left) now
  have hspares := Board.spares_deliver r.keys_stock mail true r.distinct (done ++ left) now
  have honce : (visits.map (·.mailbox)).Nodup := hrounds.visited ▸ nodup_eraseDups _
  have hqueued (id) : ((r.broadcast ticket mail).run now r (done ++ left)).router.queued id =
      leftOf id (stop.queue id) left := by
    rw [hend.queued_eq, hboard, Board.queue_acts]
  have hcopied (id) (hid : id ∈ copies visits) :=
    hrounds.successive.exists_copied r.keys_stock hrounds.fair honce hid
  refine ⟨visits, done, left, stop, time, rfl, ?_, hrounds.visited,
    ⟨nodup_eraseDups _, fun _ => mem_distinct⟩, hrounds.successive, hrounds.fair,
    hend.succeeded_eq.trans hcomplete, hend.delivered_eq.trans hreached,
    (List.filter_sublist.map _).nodup honce, fun id hclosed hid => ?_, fun id hid => ?_,
    fun id hid => ?_, fun id => ?_, (h.mirrors ticket mail done now).time_eq.trans htime, ?_⟩
  · intro id
    rw [isOpen_stock]
    cases r.refuses id <;> simp
  · have hopen : r.stock.isOpen id = true := (hcopied id hid).1
    rw [isOpen_stock, hclosed] at hopen
    exact Bool.false_ne_true hopen
  · obtain ⟨-, before, after, rfl, hcloses, hroom, hlast⟩ := hcopied id hid
    refine ⟨before, after ++ left, List.append_assoc .., hcloses, hroom, ?_⟩
    rw [hqueued, hlast, leftOf_append]
    rfl
  · have halike := hrounds.successive.alike.2 id (Successive.spared_iff.mpr hid)
    rw [hqueued, halike, Board.queue_acts, leftOf_append]
    rfl
  · rw [hend.refuses_eq, hspares.isOpen_eq, isOpen_stock]
    cases r.refuses id <;> simp
  · have hle := hrounds.successive.time_le hrounds.fair
    rwa [← hrounds.visited, List.length_map]

theorem perm_distinct (hperm : topics.Perm r.topics) :
    (r.withTopics topics).distinct.Perm r.distinct := by
  refine (List.perm_ext_iff_of_nodup (nodup_eraseDups _) (nodup_eraseDups _)).mpr fun id => ?_
  calc id ∈ (r.withTopics topics).distinct
      ↔ id ∈ topics.flatMap (·.2) := List.mem_eraseDups
    _ ↔ id ∈ r.topics.flatMap (·.2) := (hperm.flatMap_right _).mem_iff
    _ ↔ id ∈ r.distinct := List.mem_eraseDups.symm

theorem Idle.undisturbed (h : r.Idle) (ticket : Nat) (mail : Mail α) (now : Instant)
    (hperm : topics.Perm r.topics) :
    r.Undisturbed mail now (((r.withTopics topics).broadcast ticket mail).run now
      (r.withTopics topics) []) := by
  have hidle := h.withTopics topics
  have hend := hidle.mirrors ticket mail [] now
  obtain ⟨visits, done, left, stop, time, hbroadcast⟩ := hidle.broadcast ticket mail [] now
  have hcalm : Board.Calm mail (r.withTopics topics).distinct now r.stock
      (Board.deliver mail true (r.withTopics topics).distinct [] now r.stock) :=
    Board.calm_deliver mail (nodup_eraseDups _) now r.stock
  obtain ⟨hqueue, hreached, htaken, htime⟩ := hcalm
  have hsame := perm_distinct hperm
  rw [hasRoom_stock] at hqueue hreached
  rw [isFull_stock, (hsame.filter _).length_eq] at htime
  refine ⟨hbroadcast.succeeded, ?_, fun id => ?_, fun id => ?_, hend.taken_eq.trans htaken,
    hend.time_eq.trans htime⟩
  · exact hend.delivered_eq.trans (hreached.trans (hsame.filter _).length_eq)
  · calc _ = _ := hend.queued_eq id
      _ = _ := hqueue id
      _ = _ := if_congr (hsame.filter _).mem_iff rfl rfl
  · exact (hbroadcast.refuses_eq id).trans (Bool.or_false _)

theorem Idle.reachesOnce (h : r.Idle) (ticket : Nat) (mail : Mail α) (now : Instant) :
    r.ReachesOnce ticket mail now where
  disturbed := fun topics _ during => (h.withTopics topics).broadcast ticket mail during now
  undisturbed := fun _ hperm => h.undisturbed ticket mail now hperm

/-- However a router was used before. -/
theorem reachesOnce_of_run (config : RouterConfig) (moves : List (Move α)) (ticket : Nat)
    (mail : Mail α) (now : Instant) :
    ((Straddled.start config).run moves).router.ReachesOnce ticket mail now :=
  (Straddled.idle_run (idle_new config) moves).reachesOnce ticket mail now

/-- Of four mailboxes the first is on two topics, the second is full and the third was closed by its
consumer and is still on a topic. The first and the last get a copy. -/
example :
    let config : RouterConfig := ⟨.ofMillis 100, 1⟩
    let calls : List (Call Nat) := [.subscribe .login, .subscribeTo .chat 1, .subscribe .chat,
      .subscribe .chat, .subscribe .login, .close 3, .publish 0 .chat ⟨2, 8, none⟩ [] 0,
      .receive 1]
    let r := ((Straddled.start config).run (calls.map .call)).router
    let o := (r.broadcast 1 ⟨1, 7, none⟩).run 10 r []
    r.distinct = [1, 4, 2, 3] ∧ r.refuses 3 = true ∧ o.delivery.delivered = 2 ∧ o.time = 110 ∧
      [1, 2, 3, 4].map (fun id => (o.router.queued id).map (·.payload)) = [[7], [8], [], [7]] := by
  decide +kernel

end Router

end Realm
