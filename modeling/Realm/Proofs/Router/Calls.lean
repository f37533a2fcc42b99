import Realm.Proofs.Router.Board

/-!
# Calls and answers

Everything that publishers, subscribers and consumers can ask of a router, with the answer a router
gives and the one a board gives. A call is complete before the next one; consumers act between the
calls, and during the deliveries at instants of their own.
-/

namespace Realm

inductive Call (α : Type) where
  | subscribe (topic : Topic)
  | subscribeTo (topic : Topic) (id : MailboxId)
  | unsubscribe (topic : Topic) (id : MailboxId)
  | collapse (topic : Topic)
  | publish (ticket : Nat) (topic : Topic) (mail : Mail α) (during : List Delivery.Timed)
      (now : Instant)
  | broadcast (ticket : Nat) (mail : Mail α) (during : List Delivery.Timed) (now : Instant)
  | topicCount
  | sizeOf (topic : Topic)
  | receive (id : MailboxId)
  | close (id : MailboxId)
  | drop (id : MailboxId)

inductive Answer (α : Type) where
  | done
  | mailbox (id : MailboxId)
  | subscribed (error : Option RouterError)
  /-- Whether no mailbox stayed full, what the consumers took meanwhile, and when all had ended. -/
  | published (complete : Bool) (taken : List (Option (Mail α × Instant))) (time : Instant)
  /-- The number of mailboxes that got the mail, with the same. -/
  | reached (count : Nat) (taken : List (Option (Mail α × Instant))) (time : Instant)
  | counted (n : Nat)
  | found (found : Router.Found α)

variable {α : Type}

def Router.answer (r : Router α) : Call α → Answer α × Router α
  | .subscribe topic => (.mailbox (r.subscribe topic).1, (r.subscribe topic).2)
  | .subscribeTo topic id =>
    match r.subscribeTo topic id with
    | .ok r => (.subscribed none, r)
    | .error e => (.subscribed (some e), r)
  | .unsubscribe topic id => (.done, r.unsubscribe topic id)
  | .collapse topic => (.done, r.collapse topic)
  | .publish ticket topic mail during now =>
    let o := (r.publish ticket topic mail).run now r during
    (.published o.delivery.succeeded o.taken o.time, o.router)
  | .broadcast ticket mail during now =>
    let o := (r.broadcast ticket mail).run now r during
    (.reached o.delivery.delivered o.taken o.time, o.router)
  | .topicCount => (.counted r.topicCount, r)
  | .sizeOf topic => (.counted (r.sizeOf topic), r)
  | .receive id => (.found (r.receive id).1, (r.receive id).2)
  | .close id => (.done, (r.act id .close).2)
  | .drop id => (.done, (r.act id .drop).2)

def Board.answer (b : Board α) : Call α → Answer α × Board α
  | .subscribe topic => (.mailbox (b.subscribe topic).1, (b.subscribe topic).2)
  | .subscribeTo topic id =>
    match b.subscribeTo topic id with
    | .ok b => (.subscribed none, b)
    | .error e => (.subscribed (some e), b)
  | .unsubscribe topic id => (.done, b.unsubscribe topic id)
  | .collapse topic => (.done, b.collapse topic)
  | .publish _ topic mail during now =>
    let d := b.publish topic mail during now
    (.published d.complete d.taken d.time, d.board)
  | .broadcast _ mail during now =>
    let d := b.broadcast mail during now
    (.reached d.reached d.taken d.time, d.board)
  | .topicCount => (.counted b.topicCount, b)
  | .sizeOf topic => (.counted (b.sizeOf topic), b)
  | .receive id => (.found (b.receive id).1, (b.receive id).2)
  | .close id => (.done, (b.act id .close).2)
  | .drop id => (.done, (b.act id .drop).2)

def Router.answers (r : Router α) : List (Call α) → List (Answer α) × Router α
  | [] => ([], r)
  | call :: rest =>
    let (answer, r) := r.answer call
    let (answers, r) := r.answers rest
    (answer :: answers, r)

def Board.answers (b : Board α) : List (Call α) → List (Answer α) × Board α
  | [] => ([], b)
  | call :: rest =>
    let (answer, b) := b.answer call
    let (answers, b) := b.answers rest
    (answer :: answers, b)

namespace Call

def closes (b : Board α) : Call α → MailboxId → Bool
  | .unsubscribe topic id => fun other => id ∈ b.list topic && other = id
  | .collapse topic => fun other => other ∈ b.list topic
  | .publish _ _ _ during _ => fun other => during.any (Board.closes · other)
  | .broadcast _ _ during _ => fun other => during.any (Board.closes · other)
  | .close id => fun other => other = id
  | .drop id => fun other => other = id
  | _ => fun _ => false

def joins (b : Board α) (topic : Topic) : Call α → List MailboxId
  | .subscribe other => if other = topic then [b.made + 1] else []
  | .subscribeTo other id => if other = topic ∧ b.isOpen id then [id] else []
  | _ => []

/-- A mailbox is subscribed further only by a consumer that has not dropped it. -/
def owned (r : Router α) : Call α → Bool
  | .subscribeTo _ id => (r.box? id).all fun m => m.consumer != .gone
  | _ => true

end Call

/-- Every call of a run is one that its consumer can still make. -/
def Router.owned (r : Router α) : List (Call α) → Bool
  | [] => true
  | call :: rest => call.owned r && (r.answer call).2.owned rest

namespace Board

section Keeps

variable {b : Board α}

/-- A call that strikes mailboxes and adds none. -/
theorem keeps_of_spares {b' : Board α} {closing : MailboxId → Bool} (hs : b.Spares closing b') :
    (b'.lists.map (·.1)).Nodup ∧
      ∀ topic, b'.list topic = ((b.list topic).filter fun id => !closing id) ++ [] :=
  ⟨hs.keys_nodup, fun topic => by rw [hs.list_eq, List.append_nil]⟩

theorem keeps_enter (hn : (b.lists.map (·.1)).Nodup) (topic : Topic) (id : MailboxId) :
    ((b.enter topic id).lists.map (·.1)).Nodup ∧
      ∀ key, (b.enter topic id).list key =
        ((b.list key).filter fun _ => !false) ++ if topic = key then [id] else [] :=
  ⟨nodup_keys_append hn, fun key => by
    rw [Bool.not_false, List.filter_true]
    exact listOf_append⟩

/-- A call strikes the mailboxes that it closes and adds the ones that it subscribes. Of all other
subscriptions the topics, the order and the repetitions stay. -/
theorem keeps_answer (hn : (b.lists.map (·.1)).Nodup) (call : Call α) :
    ((b.answer call).2.lists.map (·.1)).Nodup ∧
      ∀ topic, (b.answer call).2.list topic =
        ((b.list topic).filter fun id => !call.closes b id) ++ call.joins b topic := by
  cases call with
  | subscribe topic => exact keeps_enter (b := { b with made := b.made + 1 }) hn topic (b.made + 1)
  | subscribeTo topic id =>
      simp only [answer, subscribeTo]
      cases hopen : b.isOpen id with
      | true => simpa [Call.joins, hopen, Call.closes] using keeps_enter hn topic id
      | false => simpa [Call.joins, hopen, Call.closes] using hn
  | unsubscribe topic id =>
      simp only [answer, unsubscribe]
      by_cases hid : id ∈ b.list topic
      · simpa [hid, Call.closes, Call.joins] using keeps_of_spares (spares_strike hn (· = id))
      · simpa [hid, Call.closes, Call.joins] using hn
  | collapse topic => exact keeps_of_spares (spares_strike hn (· ∈ b.list topic))
  | publish ticket topic mail during now =>
      exact keeps_of_spares (spares_deliver hn mail false _ during now)
  | broadcast ticket mail during now =>
      exact keeps_of_spares (spares_deliver hn mail true _ during now)
  | topicCount => exact keeps_of_spares (.refl hn)
  | sizeOf topic => exact keeps_of_spares (.refl hn)
  | receive id =>
      refine keeps_of_spares ?_
      simp only [answer, receive]
      split
      · exact .refl hn
      · exact (Spares.refl hn).setQueue _ _
  | close id => exact keeps_of_spares (spares_strike hn (· = id))
  | drop id => exact keeps_of_spares ((spares_strike hn (· = id)).setQueue id [])

end Keeps

end Board

end Realm
