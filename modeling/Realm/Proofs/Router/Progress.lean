import Realm.Proofs.Router.Post

/-!
# How deliveries go on

A delivery that has one mailbox left puts its mail there, or gives up and leaves the mailboxes
alone, or waits. Where no mailbox is closed, a delivery that does not give up leaves a copy in each.
Main statement: whatever the mailboxes, a delivery that is looked after in time does not wait for
ever.
-/

namespace Realm

variable {α : Type} {r : Router α} {id : MailboxId} {topic : Topic} {d : Delivery α}
  {now : Instant}

/-! ## One mailbox -/

/-- A topic has one subscription, and its mailbox takes mail. -/
structure Router.Sole (r : Router α) (topic : Topic) (id : MailboxId) : Prop where
  subscribers_eq : r.subscribers topic = [id]
  refuses_eq : r.refuses id = false

/-- Some mail came into one mailbox, and otherwise the same is queued. -/
def Router.Posted (id : MailboxId) (mails : List (Mail α)) (r r' : Router α) : Prop :=
  ∀ other, r'.queued other = r.queued other ++ if other = id then mails else []

theorem Router.Posted.refl (id : MailboxId) (r : Router α) : Posted id [] r r := fun _ => by simp

theorem Router.posted_offer (r : Router α) (id : MailboxId) (ticket : Nat) (mail : Mail α) :
    Posted id (if (r.offer id ticket mail).1 then [mail] else []) r
      (r.offer id ticket mail).2 := by
  intro other
  unfold offer
  cases hbox : r.box? id with
  | none => simp
  | some m =>
      have hid := id_of_box? hbox
      simp only [Mailbox.offer]
      by_cases hplace : m.rank ticket < m.queue.room
      · rw [if_pos hplace]
        refine (queued_replace hbox _ (by exact hid) other).trans ?_
        by_cases heq : other = id
        · rw [if_pos heq, if_pos rfl, if_pos heq, heq, queued_of_box? hbox]
          rfl
        · rw [if_neg heq, if_neg heq, List.append_nil]
      · rw [if_neg hplace]
        split <;>
          (refine (queued_replace hbox _ (by exact hid) other).trans ?_
           by_cases heq : other = id <;> simp [heq, queued_of_box? hbox])

structure Delivery.Seeks (d : Delivery α) (id : MailboxId) : Prop where
  todo_eq : d.todo = [id]
  persistent_eq : d.persistent = false
  gaveUp_eq : d.gaveUp = false

theorem Router.Sole.seeks (h : r.Sole topic id) (ticket : Nat) (mail : Mail α) :
    (r.publish ticket topic mail).Seeks id := ⟨h.subscribers_eq, rfl, rfl⟩

/-- The mail of a delivery is queued if and only if it succeeds; until it ends it waits. -/
theorem Delivery.Seeks.advance (h : d.Seeks id) (hopen : r.refuses id = false) (now : Instant) :
    Router.Posted id (if (d.advance now r).2.succeeded then [d.mail] else []) r
        (d.advance now r).1 ∧
      ((d.advance now r).2.isDone = false → (d.advance now r).2.Seeks id) := by
  obtain ⟨ticket, mail, persistent, todo, due, delivered, gaveUp⟩ := d
  obtain ⟨rfl, rfl, rfl⟩ := h
  have hoffer := r.posted_offer id ticket mail
  simp only [Delivery.advance, Delivery.attempt, hopen, Bool.false_eq_true, if_false]
  cases hresult : r.offer id ticket mail with
  | mk accepted r' =>
      rw [hresult] at hoffer
      cases accepted with
      | true => exact ⟨hoffer, fun hdone => by cases hdone⟩
      | false =>
          dsimp only
          split
          · refine ⟨fun other => ?_, fun hdone => by cases hdone⟩
            have hleft : (r'.withdraw id ticket).queued other = r'.queued other :=
              Router.queued_modifyBox_of_queue_eq r' id (·.leave ticket) (fun _ => rfl)
                (fun _ => rfl) other
            exact hleft.trans (hoffer other)
          · exact ⟨hoffer, fun _ => ⟨rfl, rfl, rfl⟩⟩

/-! ## Open mailboxes -/

/-- Each mailbox got as many copies of some mail as it is not to be attempted any more. -/
def Router.Fills (mail : Mail α) (r : Router α) (todo : List MailboxId) (r' : Router α)
    (todo' : List MailboxId) : Prop := ∀ id, ∃ n,
  r'.queued id = r.queued id ++ List.replicate n mail ∧ n + todo'.count id = todo.count id

theorem Router.fills_offer (r : Router α) (id : MailboxId) (ticket : Nat) (mail : Mail α)
    (rest : List MailboxId) : Fills mail r (id :: rest) (r.offer id ticket mail).2
      (if (r.offer id ticket mail).1 then rest else id :: rest) := by
  intro other
  have hposted := r.posted_offer id ticket mail other
  cases hresult : (r.offer id ticket mail).1 with
  | false =>
      rw [hresult] at hposted
      exact ⟨0, by simpa using hposted, by simp⟩
  | true =>
      rw [hresult] at hposted
      by_cases heq : other = id
      · refine ⟨1, by simpa [heq] using hposted, ?_⟩
        rw [heq, if_pos rfl, List.count_cons_self, Nat.add_comm]
      · refine ⟨0, by simpa [heq] using hposted, ?_⟩
        rw [if_pos rfl, List.count_cons_of_ne (Ne.symm heq), Nat.zero_add]

theorem Router.refuses_offer (r : Router α) (id : MailboxId) (ticket : Nat) (mail : Mail α)
    (other : MailboxId) : (r.offer id ticket mail).2.refuses other = r.refuses other := by
  unfold offer
  cases hbox : r.box? id with
  | none => rfl
  | some m =>
      have hsame : (m.offer ticket mail).2.id = m.id ∧
          (m.offer ticket mail).2.refuses = m.refuses := by
        unfold Mailbox.offer
        split
        · exact ⟨rfl, rfl⟩
        · split <;> exact ⟨rfl, rfl⟩
      dsimp only
      rw [refuses_modifyBox fun _ _ => hsame.1.trans (id_of_box? hbox)]
      split
      · next heq => rw [hbox, heq, refuses_of_box? hbox, Option.all_some, hsame.2]
      · rfl

/-- Where no mailbox is closed, a delivery that does not give up serves one after the other. -/
theorem Delivery.fills_attempt (r : Router α) (todo : List MailboxId) (due : Option Instant)
    (delivered : Nat) (hopen : ∀ id ∈ todo, r.refuses id = false) (hplain : d.persistent = false)
    (hgoes : (d.attempt now r todo due delivered).2.gaveUp = false) :
    Router.Fills d.mail r todo (d.attempt now r todo due delivered).1
      (d.attempt now r todo due delivered).2.todo := by
  induction todo generalizing r due delivered with
  | nil => exact fun other => ⟨0, by simp [attempt], rfl⟩
  | cons id rest ih =>
      obtain ⟨hid, hrest⟩ := List.forall_mem_cons.mp hopen
      have hoffer := r.fills_offer id d.ticket d.mail rest
      have hrefuses := r.refuses_offer id d.ticket d.mail
      unfold attempt at hgoes ⊢
      simp only [hid, Bool.false_eq_true, if_false] at hgoes ⊢
      cases hresult : r.offer id d.ticket d.mail with
      | mk accepted r' =>
          rw [hresult] at hoffer hrefuses hgoes
          cases accepted with
          | true =>
              dsimp only at hgoes ⊢
              intro other
              obtain ⟨n, hqueued, hcount⟩ := hoffer other
              obtain ⟨m, hqueued', hcount'⟩ := ih r' none (delivered + 1)
                (fun other hm => (hrefuses other).trans (hrest other hm)) hgoes other
              refine ⟨n + m, ?_, ?_⟩
              · rw [hqueued', hqueued, List.append_assoc, List.replicate_append_replicate]
              · rw [if_pos rfl] at hcount
                omega
          | false =>
              dsimp only at hgoes ⊢
              by_cases hlate : due.getD (now + r'.config.publishTimeout.millis) ≤ now
              · simp [hlate, hplain] at hgoes
              · rw [if_neg hlate]
                exact hoffer

theorem Delivery.fills_advance (hopen : ∀ id ∈ d.todo, r.refuses id = false)
    (hplain : d.persistent = false) (hgoes : (d.advance now r).2.gaveUp = false) :
    Router.Fills d.mail r d.todo (d.advance now r).1 (d.advance now r).2.todo :=
  fills_attempt r d.todo d.waitUntil d.delivered hopen hplain hgoes

theorem Delivery.persistent_attempt (now : Instant) (d : Delivery α) (r : Router α)
    (todo : List MailboxId) (due : Option Instant) (delivered : Nat) :
    (d.attempt now r todo due delivered).2.persistent = d.persistent := by
  induction todo generalizing r due delivered with
  | nil => rfl
  | cons id rest ih =>
      unfold attempt
      split
      · exact ih _ _ _
      · split
        · exact ih _ _ _
        · dsimp only
          split
          · split
            · exact ih _ _ _
            · rfl
          · rfl

theorem Delivery.persistent_advance (now : Instant) (r : Router α) (d : Delivery α) :
    (d.advance now r).2.persistent = d.persistent := persistent_attempt ..

/-! ## Waiting -/

theorem exists_late (now : Instant) (due : Option Instant) :
    ∃ time, now ≤ time ∧ ∀ t, due = some t → t ≤ time := by
  cases due with
  | none => exact ⟨now, Nat.le_refl _, nofun⟩
  | some t =>
      refine ⟨max now t, Nat.le_max_left .., ?_⟩
      rintro _ ⟨⟩
      exact Nat.le_max_right ..

/-- How much a delivery has left to wait for: each mailbox is found full, and then waited for. -/
def Delivery.waits (d : Delivery α) : Nat :=
  2 * d.todo.length + if d.waitUntil.isSome then 0 else 1

theorem Delivery.waits_attempt (now : Instant) (d : Delivery α) (r : Router α)
    (todo : List MailboxId) (due : Option Instant) (delivered : Nat)
    (hdue : ∀ t, due = some t → t ≤ now) :
    (d.attempt now r todo due delivered).2.isDone = true ∨
      (d.attempt now r todo due delivered).2.waits <
        2 * todo.length + if due.isSome then 0 else 1 := by
  induction todo generalizing r due delivered with
  | nil => exact .inl rfl
  | cons id rest ih =>
      have hlength : (id :: rest).length = rest.length + 1 := rfl
      have hrest : ∀ r delivered, (d.attempt now r rest none delivered).2.isDone = true ∨
          (d.attempt now r rest none delivered).2.waits <
            2 * (id :: rest).length + if due.isSome then 0 else 1 := by
        intro r delivered
        refine (ih r none delivered nofun).imp_right fun hlt => ?_
        simp only [Option.isSome_none, Bool.false_eq_true, if_false] at hlt
        omega
      unfold attempt
      split
      · exact hrest _ _
      · split
        · exact hrest _ _
        · dsimp only
          split
          · split
            · exact hrest _ _
            · exact .inl rfl
          · next hlate =>
              refine .inr ?_
              cases due with
              | none => exact Nat.lt_succ_self _
              | some t => exact absurd (hdue t rfl) hlate

/-- When it is time, a delivery ends or has less to wait for. -/
theorem Delivery.waits_advance (r : Router α) (hdue : ∀ t, d.waitUntil = some t → t ≤ now) :
    (d.advance now r).2.isDone = true ∨ (d.advance now r).2.waits < d.waits :=
  waits_attempt now d r d.todo d.waitUntil d.delivered hdue

end Realm
