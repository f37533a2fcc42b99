import Realm.Proofs.Router.Straddling

/-!
# What a delivery sees of a router

A delivery looks at mailboxes only: which of them take mail, what is queued for them, and who waits
for a place. Which topics hold them it has looked up before. So it does the same whatever the
subscriptions are, and it ends as on a board that lists just the mailboxes that take mail. This
holds for every router at which no other delivery is under way, however it was used before.
-/

namespace Realm

variable {α : Type}

/-- A mailbox at which no delivery waits, with the number of places it should have. -/
structure Mailbox.Idle (m : Mailbox α) (capacity : Nat) : Prop where
  capacity_eq : m.queue.capacity = capacity
  closed_of_shut : m.consumer = .shut → m.closed = true
  waiting_eq : m.waiting = []

namespace Router

variable {r : Router α} {id other : MailboxId} {topics : List (Topic × List MailboxId)}
  {m : Mailbox α}

def withTopics (r : Router α) (topics : List (Topic × List MailboxId)) : Router α :=
  { r with topics }

/-- The mailboxes of a router and what is queued for them, on a board that lists those that take
mail, whatever topics hold them. -/
def stock (r : Router α) : Board α :=
  ⟨r.config, r.boxes.length, r.queued,
    sift (fun id => !r.refuses id) [(.login, r.boxes.map (·.id))]⟩

/-- No delivery is under way at a router. -/
structure Idle (r : Router α) : Prop where
  capacity_pos : 1 ≤ r.config.mailboxCapacity
  le_made : ∀ id m, r.box? id = some m → id ≤ r.boxes.length
  box : ∀ id m, r.box? id = some m → m.Idle r.config.mailboxCapacity

/-! ## Whatever the subscriptions are -/

theorem offer_withTopics (r : Router α) (topics : List (Topic × List MailboxId)) (id : MailboxId)
    (ticket : Nat) (mail : Mail α) : (r.withTopics topics).offer id ticket mail =
      ((r.offer id ticket mail).1, (r.offer id ticket mail).2.withTopics topics) := by
  have hbox : (r.withTopics topics).box? id = r.box? id := rfl
  unfold offer
  rw [hbox]
  cases r.box? id <;> rfl

theorem act_withTopics (r : Router α) (topics : List (Topic × List MailboxId)) (id : MailboxId)
    (action : ConsumerAction) : (r.withTopics topics).act id action =
      ((r.act id action).1, (r.act id action).2.withTopics topics) := by
  cases action with
  | take =>
      have hbox : (r.withTopics topics).box? id = r.box? id := rfl
      rw [act_take, act_take]
      cases h : r.box? id with
      | none =>
          rw [receive_of_box?_eq_none h, receive_of_box?_eq_none (hbox.trans h)]
      | some m =>
          cases hitems : m.queue.items with
          | nil =>
              -- Whether the mailbox is held tells only what else there is than mail.
              rw [receive_of_nil h hitems, receive_of_nil (hbox.trans h) hitems]
              split <;> split <;> rfl
          | cons mail rest =>
              rw [receive_of_cons h hitems, receive_of_cons (hbox.trans h) hitems]
              rfl
  | close => rfl
  | drop => rfl

end Router

namespace Delivery

def Outcome.withTopics (o : Outcome α) (topics : List (Topic × List MailboxId)) : Outcome α :=
  { o with router := o.router.withTopics topics }

variable {r : Router α} {d : Delivery α}

theorem attempt_withTopics (now : Instant) (d : Delivery α) (r : Router α)
    (topics : List (Topic × List MailboxId)) (todo : List MailboxId) (due : Option Instant)
    (n : Nat) : attempt now d (r.withTopics topics) todo due n =
      ((attempt now d r todo due n).1.withTopics topics, (attempt now d r todo due n).2) := by
  induction todo generalizing r due n with
  | nil => rfl
  | cons id rest ih =>
      have hrefuses : (r.withTopics topics).refuses id = r.refuses id := rfl
      unfold attempt
      rw [hrefuses, Router.offer_withTopics]
      cases r.refuses id with
      | true =>
          cases due with
          | none => exact ih (r.withdraw id d.ticket) none n
          | some due => exact ih ((r.modifyBox id Mailbox.mark).withdraw id d.ticket) none n
      | false =>
          rcases r.offer id d.ticket d.mail with ⟨_ | _, r'⟩
          · dsimp only
            have hconfig : (r'.withTopics topics).config = r'.config := rfl
            simp only [Bool.false_eq_true, if_false, hconfig]
            split
            · split
              · exact ih (r'.withdraw id d.ticket) none n
              · rfl
            · rfl
          · exact ih r' none (n + 1)

/-- A delivery does the same whatever the subscriptions are. -/
theorem runFor_withTopics (rounds : Nat) (now : Instant) (r : Router α)
    (topics : List (Topic × List MailboxId)) (d : Delivery α) (actions : List Timed) :
    runFor rounds now (r.withTopics topics) d actions =
      (runFor rounds now r d actions).withTopics topics := by
  have hadvance : ∀ (now : Instant) (r : Router α) (d : Delivery α),
      advance now (r.withTopics topics) d =
        ((advance now r d).1.withTopics topics, (advance now r d).2) :=
    fun now r d => attempt_withTopics now d r topics d.todo d.waitUntil d.delivered
  induction rounds generalizing now r d actions with
  | zero =>
      unfold runFor
      rw [hadvance]
      rfl
  | succ rounds ih =>
      unfold runFor
      rw [hadvance]
      generalize advance now r d = next
      obtain ⟨r', d'⟩ := next
      cases actions with
      | nil =>
          cases hwait : d'.waitUntil with
          | none => rfl
          | some due => exact ih due r' d' []
      | cons a rest =>
          dsimp only
          split
          · exact ih _ _ _ _
          · cases a.mailbox with
            | none =>
                simp only [ih]
                rfl
            | some id =>
                simp only [Router.act_withTopics, ih]
                rfl

end Delivery

namespace Router

variable {r : Router α} {id other : MailboxId} {topics : List (Topic × List MailboxId)}
  {m : Mailbox α}

/-! ## All on one topic -/

theorem isOpen_stock (r : Router α) (id : MailboxId) : r.stock.isOpen id = !r.refuses id := by
  have hlisted : r.stock.isOpen id = _ := isListed_sift
  rw [hlisted]
  cases hrefuses : r.refuses id with
  | true => rfl
  | false =>
      obtain ⟨m, hbox⟩ := box?_of_not_refuses hrefuses
      have hm : m ∈ r.boxes := List.mem_of_find?_eq_some hbox
      have hmade : ∃ a ∈ r.boxes, a.id = id := ⟨m, hm, id_of_box? hbox⟩
      simpa [isListed] using hmade

/-- The router with all mailboxes that take mail on one topic. -/
def gathered (r : Router α) : Router α := r.withTopics r.stock.lists

theorem board_gathered (r : Router α) : r.gathered.board = r.stock := by
  have hlists : sift (fun id => !r.gathered.refuses id) r.stock.lists = r.stock.lists := by
    have hsame : (fun id => !r.gathered.refuses id) = fun id => !r.refuses id := rfl
    rw [hsame, stock, sift_sift]
    exact sift_congr fun id _ => Bool.and_self _
  calc r.gathered.board
      = ⟨r.config, r.boxes.length, r.queued,
          sift (fun id => !r.gathered.refuses id) r.stock.lists⟩ := rfl
    _ = r.stock := by rw [hlists]; rfl

theorem keys_stock (r : Router α) : (r.stock.lists.map (·.1)).Nodup := by
  have hkeys : (r.stock.lists.map (·.1)).Sublist [Topic.login] := keys_sift
  exact hkeys.nodup (List.nodup_singleton _)

/-- While no delivery is under way a router that holds all its mailboxes is in order. -/
theorem Idle.upkept_gathered (h : r.Idle) : r.gathered.Upkept fun _ => [] := by
  have hlisted : ∀ id, isListed id r.gathered.topics = !r.refuses id := isOpen_stock r
  refine ⟨⟨h.capacity_pos, h.le_made, fun id m hbox => ?_, fun id hid => ?_, r.keys_stock⟩,
    fun id hid => ?_⟩
  · obtain ⟨hcapacity, hshut, hwaiting⟩ := h.box id m hbox
    have hold : r.box? id = some m := hbox
    refine ⟨hcapacity, hshut, fun _ hclosed => ?_, hwaiting⟩
    rw [hlisted, refuses_of_box? hold, Mailbox.refuses, hclosed]
    rfl
  · rw [hlisted, Bool.not_eq_true'] at hid
    exact box?_of_not_refuses hid
  · have hopen : r.refuses id = false := hid
    rw [hlisted, hopen]
    rfl

theorem Upkept.idle (h : r.Upkept fun _ => []) : r.Idle where
  capacity_pos := h.capacity_pos
  le_made := h.le_made
  box := fun id m hbox =>
    ⟨(h.box id m hbox).capacity_eq, (h.box id m hbox).closed_of_shut, (h.box id m hbox).waiting_eq⟩

theorem Idle.of_withTopics (h : (r.withTopics topics).Idle) : r.Idle :=
  ⟨h.capacity_pos, h.le_made, h.box⟩

theorem Idle.withTopics (h : r.Idle) (topics : List (Topic × List MailboxId)) :
    (r.withTopics topics).Idle :=
  ⟨h.capacity_pos, h.le_made, h.box⟩

/-- A delivery ends as on the board of the mailboxes that take mail. -/
theorem Idle.run_ends (h : r.Idle) {d : Delivery α} (hd : d = d.facing d.todo none 0)
    (during : List Delivery.Timed) (now : Instant) :
    d.Ends 0 ((d.run now r during).withTopics r.stock.lists)
      (Board.deliver d.mail d.persistent d.todo during now r.stock) := by
  have hends := Router.run_ends h.upkept_gathered hd during now
  rw [board_gathered] at hends
  have hsame : d.run now r.gathered during = (d.run now r during).withTopics r.stock.lists :=
    Delivery.runFor_withTopics _ now r r.stock.lists d during
  rwa [hsame] at hends

/-! ## However a router was used -/

theorem idle_new (config : RouterConfig) : (new config : Router α).Idle :=
  ⟨Nat.le_max_left _ _, nofun, nofun⟩

theorem Idle.closeAll (h : r.Idle) (closing : MailboxId → Bool) : (r.closeAll closing).Idle := by
  refine ⟨h.capacity_pos, fun id m hbox => ?_, fun id m hbox => ?_⟩
  · rw [box?_closeAll] at hbox
    obtain ⟨old, hold, -⟩ := Option.map_eq_some_iff.mp hbox
    rw [length_closeAll]
    exact h.le_made id old hold
  · rw [box?_closeAll] at hbox
    obtain ⟨old, hold, rfl⟩ := Option.map_eq_some_iff.mp hbox
    obtain ⟨hcapacity, hshut, hwaiting⟩ := h.box id old hold
    split
    · exact ⟨hcapacity, fun _ => rfl, hwaiting⟩
    · exact ⟨hcapacity, hshut, hwaiting⟩

theorem Idle.attach (h : r.Idle) (topic : Topic) (id : MailboxId) : (r.attach topic id).Idle := by
  have hpruned : r.prune.Idle := h.closeAll fun id => r.holds id && r.refuses id
  exact ⟨hpruned.capacity_pos, hpruned.le_made, hpruned.box⟩

theorem Idle.withFresh (h : r.Idle) : r.withFresh.Idle := by
  have hlength : r.withFresh.boxes.length = r.boxes.length + 1 := by simp [Router.withFresh]
  have hfound : ∀ id m, r.withFresh.box? id = some m → r.box? id = some m ∨
      id = r.nextId ∧ m = .fresh r.nextId r.config.mailboxCapacity := by
    intro id m hbox
    cases hold : r.box? id with
    | some old =>
        rw [box?_withFresh_of_some hold] at hbox
        exact .inl hbox
    | none =>
        rw [box?] at hold
        have hfresh : r.withFresh.box? id = [Mailbox.fresh r.nextId r.config.mailboxCapacity].find?
            fun m => m.id = id := by simp [Router.withFresh, box?, List.find?_append, hold]
        rw [hfresh] at hbox
        have hm : m = .fresh r.nextId r.config.mailboxCapacity :=
          List.mem_singleton.mp (List.mem_of_find?_eq_some hbox)
        have hid : m.id = id := by simpa using List.find?_some hbox
        exact .inr ⟨hid.symm.trans (congrArg Mailbox.id hm), hm⟩
  refine ⟨h.capacity_pos, fun id m hbox => ?_, fun id m hbox => ?_⟩
  · rw [hlength]
    rcases hfound id m hbox with hold | ⟨rfl, -⟩
    · exact Nat.le_succ_of_le (h.le_made id m hold)
    · exact Nat.le_refl _
  · rcases hfound id m hbox with hold | ⟨-, rfl⟩
    · exact h.box id m hold
    · have hpos := h.capacity_pos
      refine ⟨?_, by simp [Mailbox.fresh], rfl⟩
      show max 1 r.config.mailboxCapacity = r.config.mailboxCapacity
      omega

theorem Idle.act (h : r.Idle) (id : MailboxId) (action : ConsumerAction) :
    (r.act id action).2.Idle := by
  obtain ⟨-, -, hkept⟩ := h.upkept_gathered.act id action
  have hsame : (r.gathered.act id action).2 = (r.act id action).2.withTopics r.stock.lists :=
    congrArg Prod.snd (act_withTopics r r.stock.lists id action)
  rw [hsame] at hkept
  exact hkept.idle.of_withTopics

theorem Idle.run (h : r.Idle) {d : Delivery α} (hd : d = d.facing d.todo none 0)
    (during : List Delivery.Timed) (now : Instant) : (d.run now r during).router.Idle := by
  have hkept : ((d.run now r during).router.withTopics r.stock.lists).Upkept fun _ => [] :=
    (h.run_ends hd during now).upkept
  exact hkept.idle.of_withTopics

theorem Idle.answer (h : r.Idle) (call : Call α) : (r.answer call).2.Idle := by
  cases call with
  | subscribe topic => exact h.withFresh.attach topic r.nextId
  | subscribeTo topic id =>
      simp only [Router.answer, Router.subscribeTo]
      cases r.isOpen id with
      | true => exact h.attach topic id
      | false => exact h
  | unsubscribe topic id =>
      simp only [Router.answer, Router.unsubscribe]
      split
      · exact (h.closeAll _).closeAll _
      · exact h
  | collapse topic =>
      simp only [Router.answer, Router.collapse]
      split
      · exact h
      · exact (h.closeAll _).closeAll _
  | publish ticket topic mail during now => exact h.run rfl during now
  | broadcast ticket mail during now => exact h.run rfl during now
  | topicCount => exact h
  | sizeOf topic => exact h
  | receive id =>
      have htake := h.act id .take
      rw [act_take] at htake
      exact htake
  | close id => exact h.act id .close
  | drop id => exact h.act id .drop

end Router

namespace Straddled

variable {d : Straddled α}

theorem idle_step (h : d.router.Idle) (move : Move α) : (d.step move).router.Idle := by
  cases move with
  | call call => exact h.answer call
  | begin topic id =>
      simp only [Straddled.step]
      split <;> exact h
  | finish place =>
      simp only [Straddled.step]
      cases d.underway[place]? with
      | none => exact h
      | some entry => exact h.attach entry.1 entry.2

/-- Between two moves no delivery is under way. -/
theorem idle_run (h : d.router.Idle) (moves : List (Move α)) : (d.run moves).router.Idle := by
  induction moves generalizing d with
  | nil => exact h
  | cons move rest ih => exact ih (idle_step h move)

end Straddled

end Realm
