import Realm.Proofs.Router.Ending

/-!
# Subscriptions that straddle other calls

Subscribing a mailbox to a further topic takes two steps, and other calls may be completed between
them. A mailbox that the router closes while no such subscription of it is under way is gone for
good. If one is under way, the closed mailbox comes back with the second step: its consumer waits
for mail that never comes, until the next change of subscriptions clears the mailbox away.
-/

namespace Realm

variable {α : Type}

/-- What is done with a router: a call as a whole, or one of the two steps of a subscription. -/
inductive Move (α : Type) where
  | call (call : Call α)
  /-- A mailbox is to be subscribed to a further topic. -/
  | begin (topic : Topic) (id : MailboxId)
  /-- One of the subscriptions that are under way is completed. -/
  | finish (place : Nat)

/-- A router and the subscriptions that are under way: the mailbox was found open and was not added
yet. -/
structure Straddled (α : Type) where
  router : Router α
  underway : List (Topic × MailboxId)

namespace Router

variable {r : Router α} {id other : MailboxId}

/-! ## What is kept in between -/

def Made (id : MailboxId) (r : Router α) : Prop := ∃ m, r.box? id = some m

/-- The mailboxes are numbered in the order they were made, and what a topic holds was made. -/
structure Housed (r : Router α) : Prop where
  le_made : ∀ id, Made id r → id ≤ r.boxes.length
  made : ∀ id, isListed id r.topics = true → Made id r

theorem made_modifyBox {f : Mailbox α → Mailbox α} (hf : ∀ m, m.id = other → (f m).id = other) :
    Made id (r.modifyBox other f) ↔ Made id r := by
  unfold Made
  rw [box?_modifyBox hf]
  split
  · simp
  · rfl

theorem made_closeAll (closing : MailboxId → Bool) :
    Made id (r.closeAll closing) ↔ Made id r := by
  unfold Made
  rw [box?_closeAll]
  simp

theorem made_attach (topic : Topic) : Made id (r.attach topic other) ↔ Made id r :=
  made_closeAll fun id => r.holds id && r.refuses id

theorem Made.withFresh (h : Made id r) : Made id r.withFresh := by
  obtain ⟨m, hbox⟩ := h
  exact ⟨m, box?_withFresh_of_some hbox⟩

theorem made_of_isOpen (h : r.isOpen id = true) : Made id r := by
  unfold isOpen at h
  cases hbox : r.box? id with
  | none => simp [hbox] at h
  | some m => exact ⟨m, hbox⟩

theorem made_nextId (r : Router α) : Made r.nextId r.withFresh := by
  unfold Made Router.withFresh box?
  rw [List.find?_append]
  cases r.boxes.find? fun m => m.id = r.nextId with
  | none => exact ⟨.fresh r.nextId r.config.mailboxCapacity, by simp [Mailbox.fresh]⟩
  | some m => exact ⟨m, rfl⟩

theorem lasting_made (id : MailboxId) : Lasting (Made (α := α) id) :=
  fun _ _ _ hf _ h => (made_modifyBox hf).mpr h

theorem Made.answer (h : Made id r) (call : Call α) : Made id (r.answer call).2 :=
  (lasting_made id).answer (fun _ closing hr => (made_closeAll closing).mpr hr)
    (fun topic => (made_attach topic).mpr h.withFresh) (fun topic _ _ => (made_attach topic).mpr h) h
    call

namespace Housed

theorem new (config : RouterConfig) : (Router.new config : Router α).Housed := ⟨nofun, nofun⟩

theorem lasting : Lasting (Housed (α := α)) := by
  intro r other f hf _ h
  refine ⟨fun id hid => ?_, fun id hlisted => (made_modifyBox hf).mpr (h.made id hlisted)⟩
  rw [length_modifyBox]
  exact h.le_made id ((made_modifyBox hf).mp hid)

theorem closeAll (h : r.Housed) (closing : MailboxId → Bool) : (r.closeAll closing).Housed := by
  refine ⟨fun id hid => ?_, fun id hlisted => (made_closeAll closing).mpr (h.made id ?_)⟩
  · rw [length_closeAll]
    exact h.le_made id ((made_closeAll closing).mp hid)
  · rw [topics_closeAll, isListed_sift, Bool.and_eq_true] at hlisted
    exact hlisted.2

theorem attach (h : r.Housed) (topic : Topic) (hid : Made id r) : (r.attach topic id).Housed := by
  have hpruned : r.prune.Housed := h.closeAll fun id => r.holds id && r.refuses id
  refine ⟨hpruned.le_made, fun other hlisted => (made_attach topic).mpr ?_⟩
  rw [isListed_attach, Bool.or_eq_true, decide_eq_true_eq, Bool.and_eq_true] at hlisted
  rcases hlisted with rfl | hlisted
  · exact hid
  · exact h.made other hlisted.2

theorem withFresh (h : r.Housed) : r.withFresh.Housed := by
  refine ⟨fun id hid => ?_, fun id hlisted => (h.made id hlisted).withFresh⟩
  have hlength : r.withFresh.boxes.length = r.boxes.length + 1 := by simp [Router.withFresh]
  rw [hlength]
  cases hold : r.box? id with
  | some old => exact Nat.le_succ_of_le (h.le_made id ⟨old, hold⟩)
  | none =>
    obtain ⟨m, hbox⟩ := hid
    rw [box?] at hold
    have hfresh : (Mailbox.fresh r.nextId r.config.mailboxCapacity : Mailbox α).id = id := by
      simpa [Router.withFresh, box?, List.find?_append, hold] using congrArg Option.isSome hbox
    have hnext : r.nextId = id := hfresh
    exact Nat.le_of_eq hnext.symm

theorem box?_nextId (h : r.Housed) : r.box? r.nextId = none := by
  rw [Option.eq_none_iff_forall_ne_some]
  intro m hbox
  exact Nat.not_succ_le_self _ (h.le_made _ ⟨m, hbox⟩)

theorem answer (h : r.Housed) (call : Call α) : (r.answer call).2.Housed :=
  lasting.answer (fun _ closing hr => hr.closeAll closing)
    (fun topic => h.withFresh.attach topic (made_nextId r))
    (fun topic _ hopen => h.attach topic (made_of_isOpen hopen)) h call

end Housed

/-! ## Closed mailboxes are cleared away -/

/-- A closed mailbox that no topic holds is found to have ended once it is empty. -/
theorem Struck.receive (h : Struck id r) : (r.receive id).1 = match r.queued id with
    | [] => .ended
    | mail :: _ => .mail mail := by
  obtain ⟨⟨m, hbox, -⟩, hheld⟩ := h
  rw [queued_of_box? hbox]
  cases hitems : m.queue.items with
  | nil => simp [receive_of_nil hbox hitems, hheld]
  | cons mail rest => simp [receive_of_cons hbox hitems]

theorem Marked.holds_attach (h : Marked id r) (topic : Topic) (hne : id ≠ other) :
    (r.attach topic other).holds id = false := by
  have hlisted : isListed id (r.attach topic other).topics = _ := isListed_attach
  rw [h.refuses_eq] at hlisted
  exact hlisted.trans (by simp [hne])

theorem Marked.holds_prune (h : Marked id r) : r.prune.holds id = false := by
  have hlisted : isListed id r.prune.topics = _ :=
    (congrArg (isListed id) topics_prune).trans isOpen_board
  rw [h.refuses_eq] at hlisted
  exact hlisted

/-- A call leaves the subscriptions alone, or clears a closed mailbox away. -/
theorem Marked.cleared (h : Marked id r) (hr : r.Housed) (call : Call α) :
    (r.answer call).2.topics = r.topics ∨ (r.answer call).2.holds id = false := by
  have hlasting : Lasting fun r' : Router α => r'.topics = r.topics := fun _ _ _ _ _ hs => hs
  cases call with
  | subscribe topic =>
    refine .inr (h.withFresh.holds_attach topic ?_)
    rintro rfl
    obtain ⟨m, hbox, -⟩ := h
    rw [hr.box?_nextId] at hbox
    cases hbox
  | subscribeTo topic other =>
    simp only [Router.answer, subscribeTo]
    cases hopen : r.isOpen other with
    | false => exact .inl rfl
    | true =>
      refine .inr (h.holds_attach topic ?_)
      rintro rfl
      rw [h.isOpen_eq] at hopen
      cases hopen
  | unsubscribe topic other =>
    simp only [Router.answer, Router.unsubscribe]
    split
    · exact .inr (h.closeAll _).holds_prune
    · exact .inl rfl
  | collapse topic =>
    simp only [Router.answer, Router.collapse]
    split
    · exact .inl rfl
    · exact .inr (h.closeAll _).holds_prune
  | publish ticket topic mail during now => exact .inl (hlasting.runFor _ now _ during rfl)
  | broadcast ticket mail during now => exact .inl (hlasting.runFor _ now _ during rfl)
  | topicCount => exact .inl rfl
  | sizeOf => exact .inl rfl
  | receive other =>
    have htake := hlasting.act other .take rfl
    rw [act_take] at htake
    exact .inl htake
  | close other => exact .inl rfl
  | drop other => exact .inl rfl

end Router

open Router

namespace Straddled

variable {d : Straddled α} {id : MailboxId}

def start (config : RouterConfig) : Straddled α := ⟨.new config, []⟩

/-- What a move does. A subscription begins if the mailbox is found open. -/
def step (d : Straddled α) : Move α → Straddled α
  | .call call => { d with router := (d.router.answer call).2 }
  | .begin topic id =>
    if d.router.isOpen id then { d with underway := d.underway ++ [(topic, id)] } else d
  | .finish place =>
    match d.underway[place]? with
    | none => d
    | some (topic, id) => ⟨d.router.attach topic id, d.underway.eraseIdx place⟩

def run (d : Straddled α) (moves : List (Move α)) : Straddled α := moves.foldl step d

def Completes (d : Straddled α) (id : MailboxId) (move : Move α) : Prop :=
  ∃ place topic, move = .finish place ∧ d.underway[place]? = some (topic, id)

/-- The router is in order, and what is to be added was made. -/
structure Ordered (d : Straddled α) : Prop where
  housed : d.router.Housed
  made : ∀ entry ∈ d.underway, Made entry.2 d.router

/-- The router closed a mailbox, and no subscription of it is under way. -/
structure Parted (id : MailboxId) (d : Straddled α) : Prop where
  struck : Struck id d.router
  absent : ∀ entry ∈ d.underway, entry.2 ≠ id

/-! ## One move -/

theorem ordered_start (config : RouterConfig) : (start config : Straddled α).Ordered :=
  ⟨.new config, nofun⟩

theorem Ordered.step (h : d.Ordered) (move : Move α) : (d.step move).Ordered := by
  cases move with
  | call call => exact ⟨h.housed.answer call, fun entry hm => (h.made entry hm).answer call⟩
  | begin topic id =>
    simp only [Straddled.step]
    split
    · next hopen =>
      refine ⟨h.housed, fun entry hm => ?_⟩
      rcases List.mem_append.mp hm with hm | hm
      · exact h.made entry hm
      · obtain rfl := List.mem_singleton.mp hm
        exact made_of_isOpen hopen
    · exact h
  | finish place =>
    simp only [Straddled.step]
    cases hplace : d.underway[place]? with
    | none => exact h
    | some entry =>
      have hentry := h.made entry (List.mem_of_getElem? hplace)
      refine ⟨h.housed.attach entry.1 hentry, fun other hm => ?_⟩
      exact (made_attach entry.1).mpr (h.made other (List.mem_of_mem_eraseIdx hm))

theorem Parted.step (h : Parted id d) (hd : d.Ordered) (move : Move α) :
    Parted id (d.step move) := by
  cases move with
  | call call => exact ⟨h.struck.answer hd.housed.box?_nextId call, h.absent⟩
  | begin topic other =>
    simp only [Straddled.step]
    split
    · next hopen =>
      refine ⟨h.struck, fun entry hm => ?_⟩
      rcases List.mem_append.mp hm with hm | hm
      · exact h.absent entry hm
      · obtain rfl := List.mem_singleton.mp hm
        rintro rfl
        rw [h.struck.1.isOpen_eq] at hopen
        cases hopen
    · exact h
  | finish place =>
    simp only [Straddled.step]
    cases hplace : d.underway[place]? with
    | none => exact h
    | some entry =>
      have hne : id ≠ entry.2 := Ne.symm (h.absent entry (List.mem_of_getElem? hplace))
      refine ⟨h.struck.attach entry.1 hne, fun other hm => ?_⟩
      exact h.absent other (List.mem_of_mem_eraseIdx hm)

/-- A closed mailbox is cleared away by a change of subscriptions, unless the change is that a
subscription of it is completed. -/
theorem Ordered.cleared (h : d.Ordered) (hid : Marked id d.router) {move : Move α}
    (hmove : ¬ d.Completes id move) : (d.step move).router.topics = d.router.topics ∨
      (d.step move).router.holds id = false := by
  cases move with
  | call call => exact hid.cleared h.housed call
  | begin topic other =>
    simp only [Straddled.step]
    split <;> exact .inl rfl
  | finish place =>
    simp only [Straddled.step]
    cases hplace : d.underway[place]? with
    | none => exact .inl rfl
    | some entry =>
      refine .inr (hid.holds_attach entry.1 ?_)
      rintro rfl
      exact hmove ⟨place, entry.1, rfl, hplace⟩

/-! ## A run -/

theorem Ordered.run (h : d.Ordered) (moves : List (Move α)) : (d.run moves).Ordered := by
  induction moves generalizing d with
  | nil => exact h
  | cons move rest ih => exact ih (h.step move)

theorem Parted.run (h : Parted id d) (hd : d.Ordered) (moves : List (Move α)) :
    Parted id (d.run moves) := by
  induction moves generalizing d with
  | nil => exact h
  | cons move rest ih => exact ih (h.step hd move) (hd.step move)

/-- What closing a mailbox comes to while subscriptions straddle it. -/
structure Closes (d : Straddled α) (id : MailboxId) : Prop where
  /-- A mailbox that the router closes while no subscription of it is under way is held by no topic
  any more, and its consumer finds what is queued and then the end. -/
  parted : ∀ topic call, id ∈ d.router.subscribers topic →
    call = .unsubscribe topic id ∨ call = .collapse topic →
    (∀ entry ∈ d.underway, entry.2 ≠ id) → ∀ moves,
    let r := ((d.step (.call call)).run moves).router
    Struck id r ∧ (r.receive id).1 = match r.queued id with
      | [] => .ended
      | mail :: _ => .mail mail
  /-- A subscription of it that is under way is completed whether it is closed or not. -/
  completed : ∀ place topic, d.underway[place]? = some (topic, id) →
    (d.step (.finish place)).router.holds id = true
  /-- Nothing else brings a closed mailbox back, and any other change of subscriptions clears it
  away. -/
  cleared : Marked id d.router → ∀ move, ¬ d.Completes id move →
    (d.step move).router.topics = d.router.topics ∨ (d.step move).router.holds id = false

/-- Whatever was done before, a mailbox that is closed stays away if no subscription of it is under
way. -/
theorem closes_run (config : RouterConfig) (moves : List (Move α)) (id : MailboxId) :
    ((start config).run moves).Closes id := by
  have hd := (ordered_start config).run moves
  refine ⟨fun topic call hid hcall habsent more => ?_, fun place topic hplace => ?_,
    fun hid move hmove => hd.cleared hid hmove⟩
  · obtain ⟨m, hbox⟩ := hd.housed.made id (isListed_of_mem_listOf hid)
    have hparted : Parted id (((start config).run moves).step (.call call)) :=
      ⟨struck_answer hbox hid hcall, habsent⟩
    have hafter := hparted.run (hd.step _) more
    exact ⟨hafter.struck, hafter.struck.receive⟩
  · simp only [Straddled.step, hplace]
    have hlisted : isListed id (((start config).run moves).router.attach topic id).topics = _ :=
      isListed_attach
    exact hlisted.trans (by simp)

/-- A topic collapses between the two steps of a subscription: nothing is under way any more, but the
closed mailbox is held, and its consumer waits although nothing is queued. -/
theorem held_of_straddling :
    let d : Straddled Nat := (start ⟨.ofMillis 100, 2⟩).run
      [.call (.subscribe .commands), .begin .chat 1, .call (.collapse .commands)]
    d.underway[0]? = some (.chat, 1) ∧ Marked 1 d.router ∧ (d.step (.finish 0)).underway = [] ∧
      Marked 1 (d.step (.finish 0)).router ∧ (d.step (.finish 0)).router.holds 1 = true ∧
      (d.step (.finish 0)).router.queued 1 = [] ∧
      ((d.step (.finish 0)).router.receive 1).1 = .nothing := by
  refine ⟨rfl, ⟨_, rfl, rfl⟩, rfl, ⟨_, rfl, rfl⟩, ?_, rfl, rfl⟩
  decide +kernel

end Straddled

end Realm
