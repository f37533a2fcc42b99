import Realm.Proofs.Router.Draining

/-!
# A closed mailbox ends

As long as a mailbox is not closed, some topic holds it, so its consumer waits for mail. Once it is
closed, it stays so: the consumer finds what is queued and then the end, and no subscription brings
it back. What the router closed by itself no topic holds any more.
-/

namespace Realm

variable {α : Type}

namespace Router

def Marked (id : MailboxId) (r : Router α) : Prop := ∃ m, r.box? id = some m ∧ m.closed = true

/-- A closed mailbox that no topic holds. -/
def Struck (id : MailboxId) (r : Router α) : Prop := Marked id r ∧ r.holds id = false

/-- A condition that outlives every rewrite of a mailbox that leaves it closed if it was. -/
def Lasting (P : Router α → Prop) : Prop :=
  ∀ (r : Router α) (id : MailboxId) (f : Mailbox α → Mailbox α), (∀ m, m.id = id → (f m).id = id) →
    (∀ m, r.box? id = some m → m.closed = true → (f m).closed = true) → P r → P (r.modifyBox id f)

theorem lasting_marked (id : MailboxId) : Lasting (Marked (α := α) id) := by
  rintro r other f hid hclosed ⟨m, hbox, hm⟩
  by_cases heq : id = other
  · subst heq
    exact ⟨f m, by rw [box?_modifyBox hid, if_pos rfl, hbox]; rfl, hclosed m hbox hm⟩
  · exact ⟨m, by rw [box?_modifyBox hid, if_neg heq, hbox], hm⟩

theorem lasting_struck (id : MailboxId) : Lasting (Struck (α := α) id) :=
  fun r other f hid hclosed h => ⟨lasting_marked id r other f hid hclosed h.1, h.2⟩

namespace Lasting

variable {P : Router α → Prop} {r : Router α}

theorem mark (hP : Lasting P) (id : MailboxId) (h : P r) : P (r.modifyBox id Mailbox.mark) :=
  hP r id _ (fun _ hm => hm) (fun _ _ _ => rfl) h

theorem withdraw (hP : Lasting P) (id : MailboxId) (ticket : Nat) (h : P r) :
    P (r.withdraw id ticket) :=
  hP r id _ (fun _ hm => hm) (fun _ _ hm => hm) h

theorem replace (hP : Lasting P) {id : MailboxId} {m m' : Mailbox α} (hbox : r.box? id = some m)
    (hid : m'.id = m.id) (hclosed : m'.closed = m.closed) (h : P r) :
    P (r.modifyBox id fun _ => m') := by
  refine hP r id _ (fun _ _ => hid.trans (id_of_box? hbox)) (fun m₀ hbox₀ hm => ?_) h
  rw [hbox, Option.some.injEq] at hbox₀
  rw [hclosed, hbox₀, hm]

theorem offer (hP : Lasting P) (id : MailboxId) (ticket : Nat) (mail : Mail α) (h : P r) :
    P (r.offer id ticket mail).2 := by
  unfold Router.offer
  cases hbox : r.box? id with
  | none => exact h
  | some m =>
    have hsame : (m.offer ticket mail).2.id = m.id ∧ (m.offer ticket mail).2.closed = m.closed := by
      unfold Mailbox.offer
      split
      · exact ⟨rfl, rfl⟩
      · split <;> exact ⟨rfl, rfl⟩
    exact hP.replace hbox hsame.1 hsame.2 h

theorem act (hP : Lasting P) (id : MailboxId) (action : ConsumerAction) (h : P r) :
    P (r.act id action).2 := by
  cases action with
  | take =>
    rw [act_take]
    cases hbox : r.box? id with
    | none => rwa [receive_of_box?_eq_none hbox]
    | some m =>
      cases hitems : m.queue.items with
      | nil =>
        rw [receive_of_nil hbox hitems]
        split <;> exact h
      | cons mail rest =>
        rw [receive_of_cons hbox hitems]
        exact hP.replace hbox rfl rfl h
  | close => exact hP r id _ (fun _ hm => hm) (fun _ _ _ => rfl) h
  | drop => exact hP r id _ (fun _ hm => hm) (fun _ _ hm => hm) h

theorem attempt (hP : Lasting P) (now : Instant) (d : Delivery α) (todo : List MailboxId)
    (due : Option Instant) (delivered : Nat) (h : P r) :
    P (d.attempt now r todo due delivered).1 := by
  induction todo generalizing r due delivered with
  | nil => exact h
  | cons id rest ih =>
    have hoffer := hP.offer id d.ticket d.mail h
    unfold Delivery.attempt
    split
    · refine ih _ _ (hP.withdraw id d.ticket ?_)
      split
      · exact hP.mark id h
      · exact h
    · split
      · next hr =>
        rw [hr] at hoffer
        exact ih _ _ hoffer
      · next hr =>
        rw [hr] at hoffer
        have hwithdraw := hP.withdraw id d.ticket hoffer
        dsimp only
        split
        · split
          · exact ih _ _ hwithdraw
          · exact hwithdraw
        · exact hoffer

theorem runFor (hP : Lasting P) (rounds : Nat) (now : Instant) (d : Delivery α)
    (actions : List Delivery.Timed) (h : P r) : P (d.runFor rounds now r actions).router := by
  have hadvance {r : Router α} (now : Instant) (d : Delivery α) (h : P r) :
      P (d.advance now r).1 := hP.attempt now d d.todo d.waitUntil d.delivered h
  induction rounds generalizing now r d actions with
  | zero => exact hadvance now d h
  | succ rounds ih =>
    have hnext := hadvance now d h
    unfold Delivery.runFor
    generalize d.advance now r = next at hnext
    obtain ⟨r, d⟩ := next
    cases actions with
    | nil =>
      cases hwait : d.waitUntil with
      | none => simpa [hwait] using hnext
      | some due => simpa [hwait] using ih due d [] hnext
    | cons a rest =>
      dsimp only
      split
      · exact ih _ _ _ hnext
      · refine ih _ _ _ ?_
        cases a.mailbox with
        | none => exact hnext
        | some id => exact hP.act id a.action hnext

end Lasting

variable {r : Router α} {id : MailboxId} {line : MailboxId → List Nat}

/-! ## Closed for good -/

theorem Marked.closeAll (h : Marked id r) (closing : MailboxId → Bool) :
    Marked id (r.closeAll closing) := by
  obtain ⟨m, hbox, hm⟩ := h
  refine ⟨_, by rw [box?_closeAll, hbox]; rfl, ?_⟩
  split
  · rfl
  · exact hm

theorem Marked.attach (h : Marked id r) (topic : Topic) (other : MailboxId) :
    Marked id (r.attach topic other) :=
  h.closeAll fun id => r.holds id && r.refuses id

theorem box?_withFresh_of_some {m : Mailbox α} (h : r.box? id = some m) :
    r.withFresh.box? id = some m := by
  rw [box?] at h
  simp [withFresh, box?, List.find?_append, h]

theorem Marked.withFresh (h : Marked id r) : Marked id r.withFresh := by
  obtain ⟨m, hbox, hm⟩ := h
  exact ⟨m, box?_withFresh_of_some hbox, hm⟩

theorem Marked.isOpen_eq (h : Marked id r) : r.isOpen id = false := by
  obtain ⟨m, hbox, hm⟩ := h
  simp [isOpen, hbox, hm]

theorem Marked.refuses_eq (h : Marked id r) : r.refuses id = true := by
  obtain ⟨m, hbox, hm⟩ := h
  simp [refuses_of_box? hbox, Mailbox.refuses, hm]

theorem Struck.closeAll (h : Struck id r) (closing : MailboxId → Bool) :
    Struck id (r.closeAll closing) :=
  have hlisted : isListed id r.topics = false := h.2
  ⟨h.1.closeAll closing, isListed_sift.trans (by rw [hlisted, Bool.and_false])⟩

theorem Struck.attach (h : Struck id r) (topic : Topic) {other : MailboxId} (hne : id ≠ other) :
    Struck id (r.attach topic other) := by
  have hlisted : isListed id r.topics = false := h.2
  exact ⟨h.1.attach topic other, isListed_attach.trans (by simp [hne, hlisted])⟩

/-- A lasting condition that changes of subscriptions keep too. -/
theorem Lasting.answer {P : Router α → Prop} (hP : Lasting P)
    (hclose : ∀ (r : Router α) closing, P r → P (r.closeAll closing))
    (hsubscribe : ∀ topic, P (r.subscribe topic).2)
    (hattach : ∀ topic other, r.isOpen other = true → P (r.attach topic other))
    (h : P r) (call : Call α) : P (r.answer call).2 := by
  cases call with
  | subscribe topic => exact hsubscribe topic
  | subscribeTo topic other =>
    simp only [Router.answer, Router.subscribeTo]
    cases hopen : r.isOpen other with
    | false => exact h
    | true => exact hattach topic other hopen
  | unsubscribe topic other =>
    simp only [Router.answer, Router.unsubscribe]
    split
    · exact hclose _ _ (hclose _ _ h)
    · exact h
  | collapse topic =>
    simp only [Router.answer, Router.collapse]
    split
    · exact h
    · exact hclose _ _ (hclose _ _ h)
  | publish ticket topic mail during now => exact hP.runFor _ now _ during h
  | broadcast ticket mail during now => exact hP.runFor _ now _ during h
  | topicCount => exact h
  | sizeOf => exact h
  | receive other =>
    have htake := hP.act other .take h
    rwa [act_take] at htake
  | close other => exact hP.act other .close h
  | drop other => exact hP.act other .drop h

theorem Marked.answer (h : Marked id r) (call : Call α) : Marked id (r.answer call).2 :=
  (lasting_marked id).answer (fun _ closing hr => hr.closeAll closing)
    (fun topic => h.withFresh.attach topic r.nextId) (fun topic other _ => h.attach topic other) h
    call

theorem Struck.answer (h : Struck id r) (hnext : r.box? r.nextId = none) (call : Call α) :
    Struck id (r.answer call).2 := by
  refine (lasting_struck id).answer (fun _ closing hr => hr.closeAll closing) (fun topic => ?_)
    (fun topic other hopen => h.attach topic ?_) h call
  · have hfresh : Struck id r.withFresh := ⟨h.1.withFresh, h.2⟩
    refine hfresh.attach topic ?_
    rintro rfl
    obtain ⟨m, hbox, -⟩ := h.1
    rw [hnext] at hbox
    cases hbox
  · rintro rfl
    rw [h.1.isOpen_eq] at hopen
    cases hopen

theorem Marked.answers (h : Marked id r) (calls : List (Call α)) :
    Marked id (r.answers calls).2 := by
  induction calls generalizing r with
  | nil => exact h
  | cons call rest ih => exact ih (h.answer call)

theorem Struck.answers (h : Struck id r) (hr : r.Upkept fun _ => []) {calls : List (Call α)}
    (howned : r.owned calls = true) : Struck id (r.answers calls).2 := by
  induction calls generalizing r with
  | nil => exact h
  | cons call rest ih =>
    obtain ⟨hcall, hrest⟩ := Bool.and_eq_true_iff.mp howned
    exact ih (h.answer (box?_nextId hr.toTended) call) (hr.matches hcall).upkept hrest

/-- The router closes a mailbox by itself. -/
theorem struck_answer {topic : Topic} {m : Mailbox α} (hbox : r.box? id = some m)
    (hid : id ∈ r.subscribers topic) {call : Call α}
    (hcall : call = .unsubscribe topic id ∨ call = .collapse topic) :
    Struck id (r.answer call).2 := by
  have hclosed (closing : MailboxId → Bool) (hclosing : closing id = true) :
      Struck id (r.closeAll closing).prune := by
    have hmarked : Marked id (r.closeAll closing) :=
      ⟨m.mark, by simp [box?_closeAll, hbox, hclosing], rfl⟩
    exact Struck.closeAll ⟨hmarked, isListed_sift.trans (by simp [hclosing])⟩ _
  rcases hcall with rfl | rfl
  · simpa [Router.answer, Router.unsubscribe, hid] using hclosed (· = id) (by simp)
  · have hne : r.subscribers topic ≠ [] := List.ne_nil_of_mem hid
    simpa [Router.answer, Router.collapse, hne] using
      hclosed (· ∈ r.subscribers topic) (by simpa using hid)

/-! ## The end of a mailbox -/

/-- What becomes of a closed mailbox when calls are made. -/
structure Drained (r : Router α) (id : MailboxId) (calls : List (Call α)) : Prop where
  closed : ∃ m, (r.answers calls).2.box? id = some m ∧ m.closed = true
  got_prefix : Call.bringsAll id calls (r.answers calls).1 <+: r.queued id
  kept : calls.any (·.drops id) = false →
    r.queued id = Call.bringsAll id calls (r.answers calls).1 ++ (r.answers calls).2.queued id
  lost : calls.any (·.drops id) = true → (r.answers calls).2.queued id = []
  found : ((r.answers calls).2.receive id).1 = match (r.answers calls).2.queued id with
    | [] => .ended
    | mail :: _ => .mail mail

/-- What holds of a mailbox that its consumer has not dropped. -/
structure Ending (r : Router α) (id : MailboxId) (m : Mailbox α) : Prop where
  waits : m.closed = false → r.holds id = true ∧
    (m.queue.items = [] → r.receive id = (.nothing, r))
  accepted : m.closed = false → ∀ topic, (r.answer (.subscribeTo topic id)).1 = .subscribed none
  refused : m.closed = true → ∀ topic,
    r.answer (.subscribeTo topic id) = (.subscribed (some (.mailboxClosed id)), r)
  drained : m.closed = true → ∀ calls, r.owned calls = true → Drained r id calls
  /-- The router closed it by itself. -/
  struck : ∀ topic call, id ∈ r.subscribers topic →
    call = .unsubscribe topic id ∨ call = .collapse topic →
    ∀ calls, r.owned (call :: calls) = true → Struck id (r.answers (call :: calls)).2

theorem Upkept.drained (hr : r.Upkept fun _ => []) (hid : Marked id r) {calls : List (Call α)}
    (howned : r.owned calls = true) : Drained r id calls := by
  obtain ⟨hanswers, hboard, hr'⟩ := hr.answers howned
  have hmade : id ≤ r.board.made := by
    obtain ⟨m, hbox, -⟩ := hid
    exact hr.le_made id m hbox
  have hdrains := Board.drains_answers hr.keys_nodup_board
    (hr.isOpen_board.trans (by rw [hid.refuses_eq]; rfl)) hmade calls
  rw [← hanswers, ← hboard] at hdrains
  refine ⟨hid.answers calls, hdrains.got_prefix, hdrains.kept, hdrains.lost, ?_⟩
  rw [(hr'.receive id).1, Board.receive, hdrains.closed]
  have hqueue : (r.answers calls).2.board.queue id = (r.answers calls).2.queued id := rfl
  rw [hqueue]
  cases (r.answers calls).2.queued id <;> rfl

theorem Upkept.ending (hr : r.Upkept fun _ => []) {m : Mailbox α} (hbox : r.box? id = some m)
    (hkept : m.consumer ≠ .gone) : Ending r id m := by
  have hm := hr.box id m hbox
  have hopen (hclosed : m.closed = false) : m.consumer = .listening ∧ r.holds id = true := by
    have hrefuses : m.refuses = false := by
      cases hconsumer : m.consumer with
      | listening => simp [Mailbox.refuses, hclosed, hconsumer]
      | shut => simp [hm.closed_of_shut hconsumer] at hclosed
      | gone => exact absurd hconsumer hkept
    exact (hr.held_iff hbox).mpr hrefuses
  have hmarked (hclosed : m.closed = true) : Marked id r := ⟨m, hbox, hclosed⟩
  exact {
    waits := fun hclosed => ⟨(hopen hclosed).2, fun hitems => by
      rw [receive_of_nil hbox hitems, if_pos (hopen hclosed)]⟩
    accepted := fun hclosed topic => by
      simp [answer, subscribeTo, isOpen, hbox, hclosed, (hopen hclosed).2]
    refused := fun hclosed topic => by
      simp [answer, subscribeTo, (hmarked hclosed).isOpen_eq]
    drained := fun hclosed calls howned => hr.drained (hmarked hclosed) howned
    struck := fun topic call hid hcall calls howned => by
      obtain ⟨hfirst, hrest⟩ := Bool.and_eq_true_iff.mp howned
      exact (struck_answer hbox hid hcall).answers (hr.matches hfirst).upkept hrest }

/-- Every mailbox ends when it is closed, and not before. -/
theorem ending_answers (config : RouterConfig) {calls : List (Call α)}
    (howned : (new config : Router α).owned calls = true) {m : Mailbox α}
    (hbox : ((new config : Router α).answers calls).2.box? id = some m)
    (hkept : m.consumer ≠ .gone) : Ending ((new config : Router α).answers calls).2 id m := by
  obtain ⟨-, -, hr⟩ := (upkept_new config).answers howned
  exact hr.ending hbox hkept

/-- A mailbox on two topics is taken off one of them while mail is queued. -/
theorem ending_answers_of_unsubscribed :
    let config : RouterConfig := ⟨.ofMillis 100, 2⟩
    let mail : Mail Nat := ⟨1, 7, none⟩
    let calls : List (Call Nat) := [.subscribe .commands, .subscribeTo .chat 1,
      .publish 0 .chat mail [] 0, .unsubscribe .commands 1]
    let more : List (Call Nat) :=
      [.subscribeTo .login 1, .broadcast 1 mail [] 0, .receive 1, .receive 1]
    let m : Mailbox Nat := ⟨1, ⟨2, [mail]⟩, true, .listening, []⟩
    let r := ((new config : Router Nat).answers calls).2
    (new config : Router Nat).owned calls = true ∧ r.box? 1 = some m ∧ m.consumer ≠ .gone ∧
      Ending r 1 m ∧ Drained r 1 more ∧ Call.bringsAll 1 more (r.answers more).1 = [mail] := by
  intro config mail calls more m r
  have howned : (new config : Router Nat).owned calls = true := by decide +kernel
  have hbox : r.box? 1 = some m := by rfl
  have hending : Ending r 1 m := ending_answers config howned hbox (by decide)
  exact ⟨howned, hbox, by decide, hending, hending.drained rfl more (by decide +kernel),
    by decide +kernel⟩

end Router

end Realm
