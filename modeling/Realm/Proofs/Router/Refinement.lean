import Realm.Proofs.Router.Passage

/-!
# Clearing away late is not seen

Main statement: a router that leaves closed mailboxes in its lists until the next change of
subscriptions gives in every run the answers of a board that strikes them at once, and every
mailbox gets the same mail.
-/

namespace Realm

variable {α : Type}

namespace Router

variable {r : Router α}

/-- A call is answered as on the board, and leads to the same board. -/
structure Matches (r : Router α) (call : Call α) : Prop where
  answer_eq : (r.answer call).1 = (r.board.answer call).1
  board_eq : (r.answer call).2.board = (r.board.answer call).2
  upkept : (r.answer call).2.Upkept fun _ => []

theorem Upkept.matches_subscribeTo (hr : r.Upkept fun _ => []) {topic : Topic} {id : MailboxId}
    (howned : (Call.subscribeTo topic id : Call α).owned r = true) :
    r.Matches (.subscribeTo topic id) := by
  have hopen := hr.isOpen_eq howned
  cases h : r.isOpen id with
  | true =>
      have hrefuses : r.refuses id = false := by
        rw [h, hr.isOpen_board] at hopen
        simpa using hopen.symm
      refine ⟨?_, ?_, ?_⟩
      · simp [answer, Board.answer, subscribeTo, Board.subscribeTo, h, ← hopen]
      · simpa [answer, Board.answer, subscribeTo, Board.subscribeTo, h, ← hopen] using
          board_attach hrefuses
      · simpa [answer, subscribeTo, h] using hr.attach hrefuses
  | false =>
      refine ⟨?_, ?_, ?_⟩
      · simp [answer, Board.answer, subscribeTo, Board.subscribeTo, h, ← hopen]
      · simp [answer, Board.answer, subscribeTo, Board.subscribeTo, h, ← hopen]
      · simpa [answer, subscribeTo, h] using hr

theorem Upkept.matches (hr : r.Upkept fun _ => []) {call : Call α}
    (howned : call.owned r = true) : r.Matches call := by
  cases call with
  | subscribe topic =>
      obtain ⟨hid, hboard, hkept⟩ := hr.subscribe topic
      exact ⟨congrArg Answer.mailbox hid, hboard, hkept⟩
  | subscribeTo topic id => exact hr.matches_subscribeTo howned
  | unsubscribe topic id => exact ⟨rfl, hr.unsubscribe.1, hr.unsubscribe.2⟩
  | collapse topic => exact ⟨rfl, hr.collapse.1, hr.collapse.2⟩
  | publish ticket topic mail during now =>
      have hends := hr.publish ticket topic mail during now
      have hgaveUp : (r.publish ticket topic mail).gaveUp = false := rfl
      refine ⟨?_, hends.board_eq, hends.upkept⟩
      simp only [answer, Board.answer, Delivery.succeeded, Delivery.isDone, hends.todo_eq,
        hends.gaveUp_eq, hends.taken_eq, hends.time_eq, hgaveUp, List.isEmpty_nil, Bool.true_and,
        Bool.false_or, Bool.not_not]
  | broadcast ticket mail during now =>
      have hends := hr.broadcast ticket mail during now
      refine ⟨?_, hends.board_eq, hends.upkept⟩
      simp only [answer, Board.answer, hends.delivered_eq, hends.taken_eq, hends.time_eq,
        Nat.zero_add]
  | topicCount => exact ⟨congrArg Answer.counted topicCount_board.symm, rfl, hr⟩
  | sizeOf topic => exact ⟨congrArg Answer.counted hr.sizeOf_board.symm, rfl, hr⟩
  | receive id =>
      obtain ⟨hfound, hboard, hkept⟩ := hr.receive id
      exact ⟨congrArg Answer.found hfound, hboard, hkept⟩
  | close id =>
      obtain ⟨-, hboard, hkept⟩ := hr.act id .close
      exact ⟨rfl, hboard, hkept⟩
  | drop id =>
      obtain ⟨-, hboard, hkept⟩ := hr.act id .drop
      exact ⟨rfl, hboard, hkept⟩

/-- Every call of a run is answered as on the board. -/
theorem Upkept.answers (hr : r.Upkept fun _ => []) {calls : List (Call α)}
    (howned : r.owned calls = true) :
    (r.answers calls).1 = (r.board.answers calls).1 ∧
      (r.answers calls).2.board = (r.board.answers calls).2 ∧
      (r.answers calls).2.Upkept fun _ => [] := by
  induction calls generalizing r with
  | nil => exact ⟨rfl, rfl, hr⟩
  | cons call rest ih =>
      obtain ⟨hcall, hrest⟩ := Bool.and_eq_true_iff.mp howned
      have hm := hr.matches hcall
      obtain ⟨hanswers, hboard, hkept⟩ := ih hm.upkept hrest
      rw [hm.board_eq] at hanswers hboard
      refine ⟨?_, hboard, hkept⟩
      change (r.answer call).1 :: ((r.answer call).2.answers rest).1 = _
      rw [hm.answer_eq, hanswers]
      rfl

/-! ## The main statement -/

def openOn (r : Router α) (topic : Topic) : List MailboxId :=
  (r.subscribers topic).filter fun id => !r.refuses id

structure Shows (r : Router α) (b : Board α) : Prop where
  queued_eq : ∀ id, r.queued id = b.queue id
  openOn_eq : ∀ topic, r.openOn topic = b.list topic
  sizeOf_eq : ∀ topic, r.sizeOf topic = (b.list topic).length
  topicCount_eq : r.topicCount = (b.lists.filter fun entry => !entry.2.isEmpty).length
  /-- A call takes the mailboxes it closes off every topic and leaves all others where they are. -/
  spared : ∀ call : Call α, call.owned r = true → ∀ topic, (r.answer call).2.openOn topic =
    ((r.openOn topic).filter fun id => !call.closes b id) ++ call.joins b topic

theorem Upkept.shows (hr : r.Upkept fun _ => []) : r.Shows r.board where
  queued_eq := fun _ => rfl
  openOn_eq := fun _ => hr.list_board.symm
  sizeOf_eq := fun _ => hr.sizeOf_board.symm
  topicCount_eq := topicCount_board.symm
  spared := by
    intro call howned topic
    have hm := hr.matches howned
    have hkeeps := (Board.keeps_answer hr.keys_nodup_board call).2 topic
    rw [← hm.board_eq, hm.upkept.list_board, hr.list_board] at hkeeps
    exact hkeeps

end Router

end Realm
