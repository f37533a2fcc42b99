import Realm.Bounded

/-!
# A bounded queue in use

Items are offered to a queue and taken from it in any order. What was taken and what still waits is
then, in order, what was accepted. An item is accepted while there is a place for it, and otherwise
the queue stays as it is.
-/

namespace Realm

inductive QueueUse (α : Type) where
  | offer (a : α)
  | pop
  deriving DecidableEq, Repr

inductive QueueAnswer (α : Type) where
  | offered (accepted : Bool)
  | popped (found : Option α)
  deriving DecidableEq, Repr

theorem filterMap_cons_eq_toList_append {α β : Type} (f : α → Option β) (a : α) (l : List α) :
    (a :: l).filterMap f = (f a).toList ++ l.filterMap f := by
  rw [List.filterMap_cons]
  cases f a <;> rfl

variable {α : Type}

def QueueAnswer.found? : QueueAnswer α → Option α
  | .popped found => found
  | .offered _ => none

namespace QueueUse

def accepted? : QueueUse α → QueueAnswer α → Option α
  | .offer a, .offered true => some a
  | _, _ => none

def accepted (us : List (QueueUse α)) (answers : List (QueueAnswer α)) : List α :=
  (us.zip answers).filterMap fun x => x.1.accepted? x.2

end QueueUse

namespace Bounded

variable {q : Bounded α}

def use (q : Bounded α) : QueueUse α → Bounded α
  | .offer a => (q.offer a).2
  | .pop => q.pop.2

def useAll (q : Bounded α) (us : List (QueueUse α)) : Bounded α := us.foldl use q

def answer (q : Bounded α) : QueueUse α → QueueAnswer α
  | .offer a => .offered (q.offer a).1
  | .pop => .popped q.pop.1

def answers (q : Bounded α) : List (QueueUse α) → List (QueueAnswer α)
  | [] => []
  | u :: us => q.answer u :: (q.use u).answers us

theorem offer_fst_iff (q : Bounded α) (a : α) :
    (q.offer a).1 = true ↔ q.items.length < q.capacity := by
  unfold offer isFull
  split
  · next hfull => simpa using hfull
  · next hroom => simpa using hroom

theorem offer_snd (q : Bounded α) (a : α) :
    (q.offer a).2 = if (q.offer a).1 then q.push a else q := by
  unfold offer
  cases q.isFull <;> rfl

/-- A queue that refuses an item stays as it is. -/
theorem offer_of_refused {a : α} (h : (q.offer a).1 = false) : (q.offer a).2 = q := by
  rw [offer_snd, h]
  rfl

theorem pop_eq (q : Bounded α) : q.pop = (q.items.head?, { q with items := q.items.tail }) := by
  obtain ⟨capacity, items⟩ := q
  cases items <;> rfl

theorem capacity_use (q : Bounded α) (u : QueueUse α) : (q.use u).capacity = q.capacity := by
  cases u with
  | offer a => exact q.capacity_offer a
  | pop => rw [use, pop_eq]

theorem capacity_useAll (q : Bounded α) (us : List (QueueUse α)) :
    (q.useAll us).capacity = q.capacity := by
  induction us generalizing q with
  | nil => rfl
  | cons u us ih => exact (ih (q.use u)).trans (q.capacity_use u)

/-- One item goes in at the end if it is accepted, one comes out at the front if it is found. -/
theorem found?_append_items (q : Bounded α) (u : QueueUse α) :
    (q.answer u).found?.toList ++ (q.use u).items =
      q.items ++ (u.accepted? (q.answer u)).toList := by
  cases u with
  | offer a =>
      rw [use, answer, offer_snd]
      cases (q.offer a).1 <;> simp [QueueAnswer.found?, QueueUse.accepted?]
  | pop =>
      rw [use, answer, pop_eq]
      cases q.items <;> simp [QueueAnswer.found?, QueueUse.accepted?]

/-- What is found and what is left, in order, is what was there and what was accepted. -/
theorem found_append_items (q : Bounded α) (us : List (QueueUse α)) :
    (q.answers us).filterMap QueueAnswer.found? ++ (q.useAll us).items =
      q.items ++ QueueUse.accepted us (q.answers us) := by
  induction us generalizing q with
  | nil => simp [answers, useAll, QueueUse.accepted]
  | cons u us ih =>
      have hhead := q.found?_append_items u
      have hrest : ((q.use u).answers us).filterMap QueueAnswer.found? ++
          (q.useAll (u :: us)).items = _ := ih (q.use u)
      calc ((q.answer u :: (q.use u).answers us).filterMap QueueAnswer.found?) ++
            (q.useAll (u :: us)).items
          = (q.answer u).found?.toList ++ ((q.use u).items ++
              QueueUse.accepted us ((q.use u).answers us)) := by
            rw [filterMap_cons_eq_toList_append, List.append_assoc, hrest]
        _ = q.items ++ ((u.accepted? (q.answer u)).toList ++
              QueueUse.accepted us ((q.use u).answers us)) := by
            rw [← List.append_assoc, hhead, List.append_assoc]
        _ = q.items ++ QueueUse.accepted (u :: us) (q.answers (u :: us)) := by
            rw [QueueUse.accepted, QueueUse.accepted, answers, List.zip_cons_cons,
              filterMap_cons_eq_toList_append]

/-- How a queue of so many places stands after these uses and answers: it refuses the newest. -/
structure DropsNewest (places : Nat) (us : List (QueueUse α)) (answers : List (QueueAnswer α))
    (q : Bounded α) : Prop where
  eq_useAll : q = (empty places).useAll us
  answers_eq : answers = (empty places).answers us
  /-- What was found and what waits is what was accepted, in order, each item once. -/
  items_eq : answers.filterMap QueueAnswer.found? ++ q.items = QueueUse.accepted us answers
  offer_iff : ∀ a, (q.offer a).1 = true ↔ q.items.length < max 1 places
  offer_eq : ∀ a, (q.offer a).2 = if (q.offer a).1 then q.push a else q
  pop_eq : q.pop = (q.items.head?, { q with items := q.items.tail })

theorem dropsNewest_useAll (places : Nat) (us : List (QueueUse α)) :
    DropsNewest places us ((empty places).answers us) ((empty places).useAll us) := by
  have hcapacity : ((empty (α := α) places).useAll us).capacity = max 1 places :=
    (empty places).capacity_useAll us
  refine ⟨rfl, rfl, (empty places).found_append_items us, fun a => ?_, fun a => offer_snd _ a,
    pop_eq _⟩
  rw [offer_fst_iff, hcapacity]

end Bounded

end Realm
