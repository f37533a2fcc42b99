import Realm.Proofs.Router.Lists
import Realm.Router.Delivery

/-!
# A board of open subscriptions

The reference that a router is measured against. A board lists, for each topic, the subscriptions
of open mailboxes and no others: whoever closes or drops a mailbox strikes it from every list at
that moment. A delivery walks the mailboxes it has to serve and waits for each in turn, while
consumers act.
-/

namespace Realm

/-- The open subscriptions by topic, and what is queued for each mailbox. -/
structure Board (α : Type) where
  config : RouterConfig
  /-- The number of mailboxes made so far. -/
  made : Nat
  queue : MailboxId → List (Mail α)
  lists : List (Topic × List MailboxId)

variable {α : Type}

def Router.Found.mail? : Router.Found α → Option (Mail α)
  | .mail found => some found
  | .ended => none
  | .nothing => none

namespace Board

def new (config : RouterConfig) : Board α :=
  ⟨{ config with mailboxCapacity := max 1 config.mailboxCapacity }, 0, fun _ => [], []⟩

def list (b : Board α) (topic : Topic) : List MailboxId := listOf topic b.lists

/-- A mailbox is open as long as some list has it. -/
def isOpen (b : Board α) (id : MailboxId) : Bool := isListed id b.lists

/-- Takes mailboxes off every list. -/
def strike (b : Board α) (closing : MailboxId → Bool) : Board α :=
  { b with lists := sift (fun id => !closing id) b.lists }

def enter (b : Board α) (topic : Topic) (id : MailboxId) : Board α :=
  { b with lists := Router.append topic id b.lists }

def setQueue (b : Board α) (id : MailboxId) (queue : List (Mail α)) : Board α :=
  { b with queue := fun other => if other = id then queue else b.queue other }

/-! ## Subscriptions -/

def subscribe (b : Board α) (topic : Topic) : MailboxId × Board α :=
  (b.made + 1, { b with made := b.made + 1 }.enter topic (b.made + 1))

def subscribeTo (b : Board α) (topic : Topic) (id : MailboxId) : Except RouterError (Board α) :=
  if b.isOpen id then .ok (b.enter topic id) else .error (.mailboxClosed id)

def unsubscribe (b : Board α) (topic : Topic) (id : MailboxId) : Board α :=
  if id ∈ b.list topic then b.strike (· = id) else b

def collapse (b : Board α) (topic : Topic) : Board α := b.strike (· ∈ b.list topic)

def sizeOf (b : Board α) (topic : Topic) : Nat := (b.list topic).length

def topicCount (b : Board α) : Nat := (b.lists.filter fun entry => !entry.2.isEmpty).length

/-! ## Consumers -/

def receive (b : Board α) (id : MailboxId) : Router.Found α × Board α :=
  match b.queue id with
  | [] => (if b.isOpen id then .nothing else .ended, b)
  | mail :: rest => (.mail mail, b.setQueue id rest)

def act (b : Board α) (id : MailboxId) : Router.ConsumerAction → Option (Mail α) × Board α
  | .take => ((b.receive id).1.mail?, (b.receive id).2)
  | .close => (none, b.strike (· = id))
  | .drop => (none, (b.strike (· = id)).setQueue id [])

def perform (b : Board α) (a : Delivery.Timed) : Option (Mail α) × Board α :=
  match a.mailbox with
  | some id => b.act id a.action
  | none => (none, b)

/-! ## Deliveries -/

inductive Verdict where
  /-- There is a place for the mail. -/
  | free
  /-- The mailbox is not open. -/
  | closed
  /-- The mailbox stayed full. -/
  | stalled
  deriving DecidableEq, Repr

/-- The end of a wait, with what the consumers took and what they have still to do. -/
structure Waited (α : Type) where
  verdict : Verdict
  board : Board α
  time : Instant
  taken : List (Option (Mail α × Instant))
  actions : List Delivery.Timed

/-- Waits for a mailbox until an instant, while consumers act. -/
def await (id : MailboxId) (due : Instant) :
    List Delivery.Timed → Instant → Board α → Waited α
  | actions, now, b =>
    if !b.isOpen id then ⟨.closed, b, now, [], actions⟩
    else if (b.queue id).length < b.config.mailboxCapacity then ⟨.free, b, now, [], actions⟩
    else if due ≤ now then ⟨.stalled, b, now, [], actions⟩
    else match actions with
      | [] => ⟨.stalled, b, due, [], []⟩
      | a :: rest =>
        let time := max now a.time
        if due < time then ⟨.stalled, b, due, [], a :: rest⟩
        else
          let w := await id due rest time (b.perform a).2
          { w with taken := (b.perform a).1.map (·, time) :: w.taken }

/-- A delivery that has ended, with what the consumers took until all of them had acted. -/
structure Delivered (α : Type) where
  board : Board α
  complete : Bool
  reached : Nat
  taken : List (Option (Mail α × Instant))
  time : Instant

def Delivered.after (d : Delivered α) (taken : List (Option (Mail α × Instant))) : Delivered α :=
  { d with taken := taken ++ d.taken }

def playOut (complete : Bool) : List Delivery.Timed → Instant → Board α → Delivered α
  | [], now, b => ⟨b, complete, 0, [], now⟩
  | a :: rest, now, b =>
    let time := max now a.time
    let d := playOut complete rest time (b.perform a).2
    { d with taken := (b.perform a).1.map (·, time) :: d.taken }

/-- Serves mailboxes in order and waits for each of them at most the publish timeout; if one stays
full, the delivery ends unless it goes `onward`. -/
def deliver (mail : Mail α) (onward : Bool) :
    List MailboxId → List Delivery.Timed → Instant → Board α → Delivered α
  | [], actions, now, b => playOut true actions now b
  | id :: rest, actions, now, b =>
    let w := await id (now + b.config.publishTimeout.millis) actions now b
    let d := match w.verdict with
      | .closed => deliver mail onward rest w.actions w.time w.board
      | .free =>
        let b := w.board.setQueue id (w.board.queue id ++ [mail])
        let d := deliver mail onward rest w.actions w.time b
        { d with reached := d.reached + 1 }
      | .stalled =>
        if onward then deliver mail onward rest w.actions w.time w.board
        else playOut false w.actions w.time w.board
    d.after w.taken

def publish (b : Board α) (topic : Topic) (mail : Mail α) (during : List Delivery.Timed)
    (now : Instant) : Delivered α :=
  deliver mail false (b.list topic) during now b

def broadcast (b : Board α) (mail : Mail α) (during : List Delivery.Timed) (now : Instant) :
    Delivered α :=
  deliver mail true (b.lists.flatMap (·.2)).eraseDups during now b

section Await

variable {b : Board α} {id : MailboxId} {due now : Instant} {actions : List Delivery.Timed}

theorem await_of_late (hopen : b.isOpen id = true)
    (hfull : ¬ (b.queue id).length < b.config.mailboxCapacity) (hlate : due ≤ now) :
    await id due actions now b = ⟨.stalled, b, now, [], actions⟩ := by
  unfold await
  simp [hopen, hfull, hlate]

/-- No consumer acts before the wait is over. -/
theorem await_of_until (hopen : b.isOpen id = true)
    (hfull : ¬ (b.queue id).length < b.config.mailboxCapacity) (hearly : ¬ due ≤ now)
    (hlate : ∀ a rest, actions = a :: rest → due < max now a.time) :
    await id due actions now b = ⟨.stalled, b, due, [], actions⟩ := by
  unfold await
  cases actions with
  | nil => simp [hopen, hfull, hearly]
  | cons a rest => simp [hopen, hfull, hearly, hlate a rest rfl]

theorem await_of_act {a : Delivery.Timed} (hopen : b.isOpen id = true)
    (hfull : ¬ (b.queue id).length < b.config.mailboxCapacity) (hearly : ¬ due ≤ now)
    (hact : ¬ due < max now a.time) :
    await id due (a :: actions) now b =
      let w := await id due actions (max now a.time) (b.perform a).2
      { w with taken := (b.perform a).1.map (·, max now a.time) :: w.taken } := by
  rw [await]
  simp only [hopen, hfull, hearly, hact, Bool.not_true, Bool.false_eq_true, if_false]

end Await

section Deliver

variable {b : Board α} {mail : Mail α} {onward : Bool} {id : MailboxId} {rest : List MailboxId}
  {actions : List Delivery.Timed} {now : Instant} {w : Waited α}

theorem deliver_of_closed
    (hw : await id (now + b.config.publishTimeout.millis) actions now b = w)
    (hv : w.verdict = .closed) : deliver mail onward (id :: rest) actions now b =
      (deliver mail onward rest w.actions w.time w.board).after w.taken := by
  simp only [deliver, hw, hv]

theorem deliver_of_free
    (hw : await id (now + b.config.publishTimeout.millis) actions now b = w)
    (hv : w.verdict = .free) : deliver mail onward (id :: rest) actions now b =
      let d := deliver mail onward rest w.actions w.time
        (w.board.setQueue id (w.board.queue id ++ [mail]))
      Delivered.after { d with reached := d.reached + 1 } w.taken := by
  simp only [deliver, hw, hv]

theorem deliver_of_passed
    (hw : await id (now + b.config.publishTimeout.millis) actions now b = w)
    (hv : w.verdict = .stalled) (ho : onward = true) : deliver mail onward (id :: rest) actions now b =
      (deliver mail onward rest w.actions w.time w.board).after w.taken := by
  simp only [deliver, hw, hv, ho, if_true]

theorem deliver_of_stopped
    (hw : await id (now + b.config.publishTimeout.millis) actions now b = w)
    (hv : w.verdict = .stalled) (ho : onward = false) :
    deliver mail onward (id :: rest) actions now b =
      (playOut false w.actions w.time w.board).after w.taken := by
  simp only [deliver, hw, hv, ho, Bool.false_eq_true, if_false]

end Deliver

theorem setQueue_self (b : Board α) (id : MailboxId) : b.setQueue id (b.queue id) = b := by
  rw [setQueue]
  congr 1
  funext other
  split
  · next heq => rw [heq]
  · rfl

/-! ## What is left of the lists -/

/-- A board after some mailboxes were struck, and others at most received or lost mail. -/
structure Spares (b : Board α) (closing : MailboxId → Bool) (b' : Board α) : Prop where
  config_eq : b'.config = b.config
  made_eq : b'.made = b.made
  keys_nodup : (b'.lists.map (·.1)).Nodup
  list_eq : ∀ topic, b'.list topic = (b.list topic).filter fun id => !closing id
  isOpen_eq : ∀ id, b'.isOpen id = (!closing id && b.isOpen id)

namespace Spares

variable {b b' b'' : Board α} {closing also : MailboxId → Bool}

theorem of_lists_eq (hn : (b.lists.map (·.1)).Nodup) (hc : b'.config = b.config)
    (hm : b'.made = b.made) (hl : b'.lists = b.lists) : b.Spares (fun _ => false) b' where
  config_eq := hc
  made_eq := hm
  keys_nodup := hl ▸ hn
  list_eq := by simp [list, hl]
  isOpen_eq := by simp [isOpen, hl]

theorem refl (hn : (b.lists.map (·.1)).Nodup) : b.Spares (fun _ => false) b :=
  .of_lists_eq hn rfl rfl rfl

theorem trans (hb : b.Spares closing b') (hb' : b'.Spares also b'') :
    b.Spares (fun id => closing id || also id) b'' where
  config_eq := hb'.config_eq.trans hb.config_eq
  made_eq := hb'.made_eq.trans hb.made_eq
  keys_nodup := hb'.keys_nodup
  list_eq := by
    intro topic
    rw [hb'.list_eq, hb.list_eq, List.filter_filter]
    exact List.filter_congr fun id _ => by rw [Bool.not_or, Bool.and_comm]
  isOpen_eq := by
    intro id
    rw [hb'.isOpen_eq, hb.isOpen_eq, Bool.not_or]
    ac_rfl

theorem congr (hb : b.Spares closing b') (h : ∀ id, closing id = also id) : b.Spares also b' :=
  funext h ▸ hb

theorem setQueue (hb : b.Spares closing b') (id : MailboxId) (queue : List (Mail α)) :
    b.Spares closing (b'.setQueue id queue) :=
  ⟨hb.config_eq, hb.made_eq, hb.keys_nodup, hb.list_eq, hb.isOpen_eq⟩

end Spares

section Laws

variable {b : Board α} {id other : MailboxId} {topic : Topic}

theorem spares_strike (hn : (b.lists.map (·.1)).Nodup) (closing : MailboxId → Bool) :
    b.Spares closing (b.strike closing) :=
  ⟨rfl, rfl, keys_sift.nodup hn, fun _ => listOf_sift hn, fun _ => isListed_sift⟩

def closes (a : Delivery.Timed) (id : MailboxId) : Bool :=
  a.mailbox = some id && a.action != .take

theorem spares_perform (hn : (b.lists.map (·.1)).Nodup) (a : Delivery.Timed) :
    b.Spares (closes a) (b.perform a).2 := by
  obtain ⟨time, mailbox, action⟩ := a
  cases mailbox with
  | none => exact (Spares.refl hn).congr fun _ => rfl
  | some mailbox =>
      cases action with
      | take =>
          refine Spares.congr ?_ fun id => (Bool.and_false _).symm
          simp only [perform, act, receive]
          split
          · exact .refl hn
          · exact (Spares.refl hn).setQueue _ _
      | close =>
          refine (spares_strike hn (· = mailbox)).congr fun id => Bool.eq_iff_iff.mpr ?_
          simpa [closes] using eq_comm
      | drop =>
          refine ((spares_strike hn (· = mailbox)).setQueue mailbox []).congr fun id =>
            Bool.eq_iff_iff.mpr ?_
          simpa [closes] using eq_comm

theorem spares_await (hn : (b.lists.map (·.1)).Nodup) (id : MailboxId) (due now : Instant)
    (actions : List Delivery.Timed) : ∃ done,
      actions = done ++ (await id due actions now b).actions ∧
      b.Spares (fun other => done.any (closes · other)) (await id due actions now b).board := by
  induction actions generalizing now b with
  | nil =>
      unfold await
      split
      · exact ⟨[], rfl, .refl hn⟩
      · split
        · exact ⟨[], rfl, .refl hn⟩
        · split <;> exact ⟨[], rfl, .refl hn⟩
  | cons a rest ih =>
      have hperform := spares_perform hn a
      obtain ⟨done, hdone, hspares⟩ := ih hperform.keys_nodup (max now a.time)
      unfold await
      split
      · exact ⟨[], rfl, .refl hn⟩
      · split
        · exact ⟨[], rfl, .refl hn⟩
        · split
          · exact ⟨[], rfl, .refl hn⟩
          · dsimp only
            split
            · exact ⟨[], rfl, .refl hn⟩
            · exact ⟨a :: done, congrArg (a :: ·) hdone, hperform.trans hspares⟩

theorem spares_playOut (hn : (b.lists.map (·.1)).Nodup) (complete : Bool) (now : Instant)
    (actions : List Delivery.Timed) : b.Spares (fun other => actions.any (closes · other))
      (playOut complete actions now b).board := by
  induction actions generalizing now b with
  | nil => exact .refl hn
  | cons a rest ih =>
      have hperform := spares_perform hn a
      exact hperform.trans (ih hperform.keys_nodup (max now a.time))

/-- A delivery strikes what the consumers close until it has ended, and nothing else. -/
theorem spares_deliver (hn : (b.lists.map (·.1)).Nodup) (mail : Mail α) (onward : Bool)
    (todo : List MailboxId) (actions : List Delivery.Timed) (now : Instant) :
    b.Spares (fun other => actions.any (closes · other))
      (deliver mail onward todo actions now b).board := by
  induction todo generalizing actions now b with
  | nil => exact spares_playOut hn true now actions
  | cons id rest ih =>
      obtain ⟨done, hdone, hspares⟩ :=
        spares_await hn id (now + b.config.publishTimeout.millis) now actions
      have hall : ∀ other, (done.any (closes · other) || (await id
          (now + b.config.publishTimeout.millis) actions now b).actions.any (closes · other)) =
          actions.any (closes · other) := by
        intro other
        rw [← List.any_append, ← hdone]
      simp only [deliver]
      split
      · exact (hspares.trans (ih hspares.keys_nodup _ _)).congr hall
      · have hserved := hspares.setQueue id ((await id (now + b.config.publishTimeout.millis)
          actions now b).board.queue id ++ [mail])
        exact (hserved.trans (ih hserved.keys_nodup _ _)).congr hall
      · split
        · exact (hspares.trans (ih hspares.keys_nodup _ _)).congr hall
        · exact (hspares.trans (spares_playOut hspares.keys_nodup false _ _)).congr hall

/-- Mailboxes that are not open need not be attempted. -/
theorem deliver_filter (hn : (b.lists.map (·.1)).Nodup) (mail : Mail α) (onward : Bool)
    {p : MailboxId → Bool} {todo : List MailboxId} (hp : ∀ id, b.isOpen id = true → p id = true)
    (actions : List Delivery.Timed) (now : Instant) :
    deliver mail onward (todo.filter p) actions now b = deliver mail onward todo actions now b := by
  induction todo generalizing actions now b with
  | nil => rfl
  | cons id rest ih =>
      by_cases hid : p id = true
      · rw [List.filter_cons_of_pos hid]
        obtain ⟨done, -, hspares⟩ :=
          spares_await hn id (now + b.config.publishTimeout.millis) now actions
        have hopen : ∀ other, (await id (now + b.config.publishTimeout.millis) actions now
            b).board.isOpen other = true → p other = true := by
          intro other hother
          rw [hspares.isOpen_eq, Bool.and_eq_true] at hother
          exact hp other hother.2
        have hqueue := fun queue => ih (hspares.setQueue id queue).keys_nodup hopen
        simp only [deliver, ih hspares.keys_nodup hopen, hqueue]
      · have hclosed : b.isOpen id = false := by
          rw [← Bool.not_eq_true]
          exact fun hopen => hid (hp id hopen)
        have hawait : await id (now + b.config.publishTimeout.millis) actions now b =
            ⟨.closed, b, now, [], actions⟩ := by
          unfold await
          rw [hclosed]
          rfl
        rw [List.filter_cons_of_neg hid, ih hn hp, deliver_of_closed hawait rfl]
        rfl

end Laws

end Board

end Realm
