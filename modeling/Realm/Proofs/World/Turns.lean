import Realm.World.Basic

/-!
# Systems take turns

A tick gives its systems a turn each, in order: the policy is asked, and if it fires the work is
done. The first turn that fails is the last one. What a tick comes to can be told from its turns.
-/

namespace Realm

variable {C σ P : Type}

inductive Turn (C σ : Type) where
  /-- The policy does not fire. -/
  | rests
  /-- The policy fires, and the work leaves a stage. -/
  | works (after : Stage C σ)
  /-- The policy fails. -/
  | undecided (why : WorldError)
  /-- The policy fires, and the work fails, leaving a stage. -/
  | fails (why : WorldError) (after : Stage C σ)

namespace Turn

def error? : Turn C σ → Option WorldError
  | .rests | .works _ => none
  | .undecided why | .fails why _ => some why

def after (stage : Stage C σ) : Turn C σ → Stage C σ
  | .rests | .undecided _ => stage
  | .works after | .fails _ after => after

/-- How a system answers for its turn: whether it did its work. -/
def answer : Turn C σ → Except WorldError Bool
  | .rests => .ok false
  | .works _ => .ok true
  | .undecided why | .fails why _ => .error why

def afterAll (stage : Stage C σ) (turns : List (SystemId × Turn C σ)) : Stage C σ :=
  turns.foldl (fun stage turn => turn.2.after stage) stage

theorem answer_of_failure {turn : Turn C σ} {why : WorldError} (h : turn.error? = some why) :
    turn.answer = .error why := by
  cases turn with
  | rests => cases h
  | works after => cases h
  | undecided other => exact congrArg Except.error (Option.some.inj h)
  | fails other after => exact congrArg Except.error (Option.some.inj h)

theorem exists_answer_of_success {turn : Turn C σ} (h : turn.error? = none) :
    ∃ worked, turn.answer = .ok worked := by
  cases turn with
  | rests => exact ⟨false, rfl⟩
  | works after => exact ⟨true, rfl⟩
  | undecided why => cases h
  | fails why after => cases h

end Turn

namespace System

variable [Policy P]

def turn (y : System C σ P) (delta : Duration) (stage : Stage C σ) : Turn C σ :=
  match (Policy.decide y.policy delta).1 with
  | .error why => .undecided why
  | .ok false => .rests
  | .ok true =>
    match y.process y.entities delta stage with
    | .ok _ after => .works after
    | .error why after => .fails why after

def asked (delta : Duration) (y : System C σ P) : System C σ P :=
  { y with policy := (Policy.decide y.policy delta).2 }

theorem run_eq_turn (y : System C σ P) (delta : Duration) (stage : Stage C σ) :
    y.run delta stage =
      ((y.turn delta stage).answer, y.asked delta, (y.turn delta stage).after stage) := by
  unfold run turn asked
  cases Policy.decide y.policy delta with
  | mk decision policy =>
      cases decision with
      | error why => rfl
      | ok fires =>
          cases fires with
          | false => rfl
          | true =>
              simp only
              cases y.process y.entities delta stage <;> rfl

end System

namespace World

variable [Policy P] {delta : Duration} {stage : Stage C σ}
  {systems : List (SystemId × System C σ P)}

/-- The turns of systems in order, up to the first that fails. -/
def turns (delta : Duration) : Stage C σ → List (SystemId × System C σ P) →
    List (SystemId × Turn C σ)
  | _, [] => []
  | stage, (id, y) :: rest =>
    let turn := y.turn delta stage
    (id, turn) :: if turn.error?.isSome then [] else turns delta (turn.after stage) rest

/-- What some turns come to: the failure of the last one, if it failed. -/
def outcome (turns : List (SystemId × Turn C σ)) : Except WorldError Unit :=
  match turns.getLast?.bind (·.2.error?) with
  | none => .ok ()
  | some why => .error why

/-- A run of systems is told from its turns. -/
structure TakesTurns (delta : Duration) (stage : Stage C σ)
    (systems : List (SystemId × System C σ P)) (turns : List (SystemId × Turn C σ))
    (run : Except WorldError Unit × List (SystemId × System C σ P) × Stage C σ) : Prop where
  /-- The systems have their turns in order, each once. -/
  inOrder : turns.map (·.1) <+: systems.map (·.1)
  /-- A turn is that of its system on the stage that the turns before it left. -/
  each : ∀ before id turn after, turns = before ++ (id, turn) :: after →
    ∃ y, systems[before.length]? = some (id, y) ∧ turn = y.turn delta (Turn.afterAll stage before)
  /-- Only the last turn may fail. -/
  untilFailure : ∀ turn ∈ turns.dropLast, turn.2.error? = none
  /-- If none fails, every system has its turn. -/
  complete : (∀ turn ∈ turns, turn.2.error? = none) → turns.length = systems.length
  /-- The result is the failure of the last turn, if it failed. -/
  result_eq : run.1 = outcome turns
  /-- Systems that had a turn were asked, and the others are left as they were. -/
  systems_eq : run.2.1 =
    (systems.take turns.length).map (fun entry => (entry.1, entry.2.asked delta)) ++
      systems.drop turns.length
  /-- Nothing is done but the work of the turns. -/
  stage_eq : run.2.2 = Turn.afterAll stage turns

variable {y : System C σ P} {id : SystemId} {rest : List (SystemId × System C σ P)}
  {later : List (SystemId × Turn C σ)}
  {run : Except WorldError Unit × List (SystemId × System C σ P) × Stage C σ}

namespace TakesTurns

theorem nil (delta : Duration) (stage : Stage C σ) :
    TakesTurns delta stage ([] : List (SystemId × System C σ P)) [] (.ok (), [], stage) := by
  refine ⟨List.prefix_rfl, ?_, ?_, fun _ => rfl, rfl, rfl, rfl⟩
  · intro before id turn after h
    simp at h
  · intro turn hm
    cases hm

/-- A turn that fails is the only one. -/
theorem stop {why : WorldError} (h : (y.turn delta stage).error? = some why) (id : SystemId)
    (rest : List (SystemId × System C σ P)) :
    TakesTurns delta stage ((id, y) :: rest) [(id, y.turn delta stage)]
      (.error why, (id, y.asked delta) :: rest, (y.turn delta stage).after stage) := by
  refine ⟨by simp, ?_, by simp, ?_, ?_, rfl, rfl⟩
  · intro before id' turn after heq
    cases before with
    | nil =>
        cases heq
        exact ⟨y, rfl, rfl⟩
    | cons first before => simp at heq
  · intro hnone
    have hhead := hnone _ List.mem_cons_self
    rw [h] at hhead
    cases hhead
  · simp [outcome, h]

/-- A turn that does not fail comes before those of the other systems. -/
theorem cons (h : (y.turn delta stage).error? = none)
    (hrest : TakesTurns delta ((y.turn delta stage).after stage) rest later run) :
    TakesTurns delta stage ((id, y) :: rest) ((id, y.turn delta stage) :: later)
      (run.1, (id, y.asked delta) :: run.2.1, run.2.2) := by
  refine ⟨?_, ?_, ?_, ?_, ?_, ?_, ?_⟩
  · exact List.cons_prefix_cons.mpr ⟨rfl, hrest.inOrder⟩
  · intro before id' turn after heq
    cases before with
    | nil =>
        cases heq
        exact ⟨y, rfl, rfl⟩
    | cons first before =>
        obtain ⟨rfl, hlater⟩ := List.cons_eq_cons.mp heq
        exact hrest.each before id' turn after hlater
  · intro turn hm
    cases later with
    | nil => cases hm
    | cons next later =>
        rcases List.mem_cons.mp hm with rfl | hm
        · exact h
        · exact hrest.untilFailure turn hm
  · intro hnone
    exact congrArg (· + 1) (hrest.complete fun turn hm => hnone turn (List.mem_cons_of_mem _ hm))
  · rw [hrest.result_eq]
    cases later with
    | nil => simp [outcome, h]
    | cons next later => simp [outcome]
  · rw [hrest.systems_eq]
    rfl
  · exact hrest.stage_eq

end TakesTurns

/-- Running systems is told from their turns. -/
theorem takesTurns_runSystems (delta : Duration) (stage : Stage C σ)
    (systems : List (SystemId × System C σ P)) :
    TakesTurns delta stage systems (turns delta stage systems) (runSystems delta stage systems) := by
  induction systems generalizing stage with
  | nil => exact .nil delta stage
  | cons first rest ih =>
      obtain ⟨id, y⟩ := first
      rw [turns, runSystems, y.run_eq_turn delta stage]
      cases hfailure : (y.turn delta stage).error? with
      | some why =>
          rw [Turn.answer_of_failure hfailure]
          exact .stop hfailure id rest
      | none =>
          obtain ⟨worked, hanswer⟩ := Turn.exists_answer_of_success hfailure
          rw [hanswer]
          exact (ih ((y.turn delta stage).after stage)).cons hfailure

end World

end Realm
