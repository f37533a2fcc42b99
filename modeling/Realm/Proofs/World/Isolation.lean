import Realm.Proofs.Store.Tenure
import Realm.Proofs.World.Run
import Realm.Proofs.World.Schedule

/-!
# Isolation within a tick

Main statement: what systems do to the store in their turns reaches no list of entities and no other
system's view of what is visible before the next update. A handle in a list stands for its own
entity until then, also when the entity was destroyed and another one has taken its identity.
-/

namespace Realm

variable {C σ P : Type}

/-- How a system that is given some entities comes to a turn. -/
inductive System.Given (y : System C σ P) (entities : List Handle) (delta : Duration)
    (stage : Stage C σ) : Turn C σ → Prop
  | rests : Given y entities delta stage .rests
  | undecided (why : WorldError) : Given y entities delta stage (.undecided why)
  | works {after : Stage C σ} (done : y.process entities delta stage = .ok () after) :
      Given y entities delta stage (.works after)
  | fails {why : WorldError} {after : Stage C σ}
      (failed : y.process entities delta stage = .error why after) :
      Given y entities delta stage (.fails why after)

theorem System.given_turn [Policy P] (y : System C σ P) (delta : Duration) (stage : Stage C σ) :
    y.Given y.entities delta stage (y.turn delta stage) := by
  unfold turn
  split
  · exact .undecided _
  · exact .rests
  · split
    · next hdone => exact .works hdone
    · next hfailed => exact .fails hfailed

namespace World

section Between

variable [Component C]

/-- What turns do to the store are operations, some for each turn. -/
inductive Works : History C → Stage C σ → List (SystemId × Turn C σ) → List (List (Edit C)) → Prop
  | nil (t : History C) (stage : Stage C σ) : Works t stage [] []
  | cons {t : History C} {stage : Stage C σ} {id : SystemId} {turn : Turn C σ}
      {turns : List (SystemId × Turn C σ)} {ops : List (Edit C)} {rest : List (List (Edit C))}
      (admits : t.AdmitsAll ops) (left : (turn.after stage).store = (t.editAll ops).store)
      (after : Works (t.editAll ops) (turn.after stage) turns rest) :
      Works t stage ((id, turn) :: turns) (ops :: rest)

/-- What is done to a world and the operations among it, without any update. -/
inductive Waits (w : World C σ P) (t : History C) : World C σ P → List (Edit C) → Prop
  | refl : Waits w t w []
  | edit {v : World C σ P} {ops : List (Edit C)} (before : Waits w t v ops) (op : Edit C)
      (admits : (t.editAll ops).Admits op) :
      Waits w t (v.withStore ((t.editAll ops).edit op).store) (ops ++ [op])
  | share {v : World C σ P} {ops : List (Edit C)} (before : Waits w t v ops) (value : σ) :
      Waits w t (v.withShared value) ops
  | addSystem {v : World C σ P} {ops : List (Edit C)} (before : Waits w t v ops) (name : String)
      (interest : Mask) (policy : P) (process : List Handle → Duration → Work C σ Unit) :
      Waits w t (v.addSystem name interest policy process).2 ops
  | removeSystem {v : World C σ P} {ops : List (Edit C)} (before : Waits w t v ops)
      (id : SystemId) : Waits w t (v.removeSystem id) ops

variable {w v : World C σ P} {t : History C} {stage : Stage C σ}
  {turns before after : List (SystemId × Turn C σ)} {ops : List (List (Edit C))}
  {later : List (Edit C)}

theorem Works.admits (hw : Works t stage turns ops) : t.AdmitsAll ops.flatten := by
  induction hw with
  | nil => trivial
  | cons admits left after ih => exact History.admitsAll_append.mpr ⟨admits, ih⟩

/-- After some turns the store is what their operations make of it. -/
theorem Works.store_eq (hw : Works t stage turns ops) (hs : stage.store = t.store) (n : Nat) :
    (Turn.afterAll stage (turns.take n)).store = (t.editAll (ops.take n).flatten).store := by
  induction hw generalizing n with
  | nil => cases n <;> exact hs
  | cons admits left after ih =>
      cases n with
      | zero => exact hs
      | succ n =>
          rw [List.take_succ_cons, List.take_succ_cons, List.flatten_cons, History.editAll_append]
          exact ih left n

theorem Works.length_eq (hw : Works t stage turns ops) : ops.length = turns.length := by
  induction hw with
  | nil => rfl
  | cons admits left after ih => exact congrArg (· + 1) ih

theorem Waits.admits (hv : Waits w t v later) : t.AdmitsAll later := by
  induction hv with
  | refl => trivial
  | edit before op admits ih => exact History.admitsAll_append.mpr ⟨ih, admits, trivial⟩
  | share before value ih => exact ih
  | addSystem before name interest policy process ih => exact ih
  | removeSystem before id ih => exact ih

theorem Waits.store_eq (hv : Waits w t v later) (hs : w.store = t.store) :
    v.store = (t.editAll later).store := by
  induction hv with
  | refl => exact hs
  | edit before op admits ih =>
      rw [History.editAll_append]
      rfl
  | share before value ih => exact ih
  | addSystem before name interest policy process ih => exact ih
  | removeSystem before id ih => exact ih

theorem Waits.systems_eq (hv : Waits w t v later) : v.systems = w.systems := by
  induction hv with
  | refl => rfl
  | edit before op admits ih => exact ih
  | share before value ih => exact ih
  | addSystem before name interest policy process ih => exact ih
  | removeSystem before id ih => exact ih

end Between

def listing (entry : SystemId × System C σ P) : SystemId × List Handle :=
  (entry.1, entry.2.entities)

variable [Component C] [Policy P] {capacity : UInt32} {shared : σ} {w v : World C σ P}
  {t : History C} {delta : Duration} {ops : List (List (Edit C))} {later : List (Edit C)}

/-- A tick is isolated, in which the turns do some operations on the store and others follow until
the next update. -/
structure Isolated (w : World C σ P) (t : History C) (delta : Duration)
    (ops : List (List (Edit C))) (v : World C σ P) (later : List (Edit C)) : Prop where
  /-- Nothing happens in the second phase but the turns. -/
  turns : TakesTurns delta w.applyChanges.stage w.applyChanges.systems (w.turnsAt delta)
    ((w.update delta).1, (w.update delta).2.systems, (w.update delta).2.stage)
  /-- A system is given what it listed when the phase began, whatever the turns before did. -/
  given : ∀ before id turn after, w.turnsAt delta = before ++ (id, turn) :: after →
    (Turn.afterAll w.applyChanges.stage before).store =
      (t.apply.editAll (ops.take before.length).flatten).store ∧
    ∃ y, w.applyChanges.systems[before.length]? = some (id, y) ∧
      y.Given y.entities delta (Turn.afterAll w.applyChanges.stage before) turn
  /-- The lists are the same until the next update. -/
  listings : (w.update delta).2.systems.map listing = w.applyChanges.systems.map listing ∧
    v.systems.map listing = w.applyChanges.systems.map listing
  stores : (w.update delta).2.store = (t.apply.editAll ops.flatten).store ∧
    v.store = (t.apply.editAll (ops.flatten ++ later)).store
  /-- What is visible stays so after each of the operations, and nothing is added. -/
  seen : ∀ done, done <+: ops.flatten ++ later →
    (t.apply.editAll done).store.seen = w.applyChanges.store.seen
  /-- A handle in a list stands for its own entity, which lives when the phase begins. -/
  resolves : ∀ entry ∈ w.applyChanges.systems, ∀ h ∈ entry.2.entities,
    ∃ e ∈ w.applyChanges.store.visible, e.handle = h ∧
      ∀ done, done <+: ops.flatten ++ later →
        (t.apply.editAll done).store.Resolves h (Tenant.editAll h ⟨true, e⟩ done)
  /-- An entity that one of the operations creates is never visible and in no list. -/
  hidden : ∀ done cs h s, done ++ [.create cs] <+: ops.flatten ++ later →
    (t.apply.editAll done).store.create cs = .ok (h, s) →
    (∀ done', done' <+: ops.flatten ++ later → h ∉ (t.apply.editAll done').store.seen) ∧
      ∀ entry ∈ v.systems, h ∉ entry.2.entities

theorem Works.store_update (hworks : Works t.apply w.applyChanges.stage (w.turnsAt delta) ops)
    (hs : w.applyChanges.store = t.apply.store) :
    (w.update delta).2.store = (t.apply.editAll ops.flatten).store := by
  have hstage : (w.update delta).2.stage = Turn.afterAll w.applyChanges.stage (w.turnsAt delta) :=
    (takesTurns_runSystems delta _ _).stage_eq
  have hall := hworks.store_eq hs (w.turnsAt delta).length
  rw [List.take_length, ← hworks.length_eq, List.take_length] at hall
  rw [store, hstage]
  exact hall

/-- What a system lists when the second phase begins is visible. -/
theorem Runs.exists_visible (hr : Runs capacity shared w t) (hw : t.Unworn)
    {entry : SystemId × System C σ P} (hentry : entry ∈ w.applyChanges.systems) {h : Handle}
    (hh : h ∈ entry.2.entities) : ∃ e ∈ t.apply.store.visible, e.handle = h := by
  have hsound : t.Sound := hr.reaches.sound (.start capacity) hw
  have hfollows := (hr.faithful hw).follows_applyChanges (hr.store_eq ▸ hsound.tidy)
    (hr.store_eq ▸ hsound.queued) entry hentry
  obtain ⟨e, hseen⟩ := hfollows.seen h hh
  rw [store_applyChanges, hr.store_eq] at hseen
  exact ⟨e, hsound.apply.tidy.placed.seen?_eq_some_iff.mp hseen⟩

/-- Until the next update nobody notices what the systems of a tick do to the store, but on the
entities themselves. -/
theorem isolated_update (hr : Runs capacity shared w t)
    (hworks : Works t.apply w.applyChanges.stage (w.turnsAt delta) ops)
    (hwaits : Waits (w.update delta).2 (t.apply.editAll ops.flatten) v later)
    (hw : (t.apply.editAll (ops.flatten ++ later)).Unworn) :
    Isolated w t delta ops v later := by
  have hall : t.apply.AdmitsAll (ops.flatten ++ later) :=
    History.admitsAll_append.mpr ⟨hworks.admits, hwaits.admits⟩
  have hunworn : t.Unworn := hw.of_suffix (History.suffix_destroyed_editAll t.apply _)
  have hsound : t.Sound := hr.reaches.sound (.start capacity) hunworn
  have hstore : w.applyChanges.store = t.apply.store :=
    congrArg (fun s : Store C => s.apply.2) hr.store_eq
  have hturns := takesTurns_runSystems delta w.applyChanges.stage w.applyChanges.systems
  have hupdate := hworks.store_update hstore
  have hlistings : (w.update delta).2.systems.map listing = w.applyChanges.systems.map listing :=
    w.map_update delta fun _ _ _ => rfl
  have hlistings' : v.systems.map listing = w.applyChanges.systems.map listing := by
    rw [hwaits.systems_eq, hlistings]
  have hdone : ∀ done, done <+: ops.flatten ++ later →
      t.apply.AdmitsAll done ∧ (t.apply.editAll done).Unworn := by
    rintro done ⟨rest, heq⟩
    rw [← heq] at hall hw
    exact ⟨(History.admitsAll_append.mp hall).1, hw.of_editAll⟩
  have hseen : ∀ done, done <+: ops.flatten ++ later →
      (t.apply.editAll done).store.seen = t.apply.store.seen := by
    intro done hpart
    obtain ⟨hadmits, hunworn⟩ := hdone done hpart
    exact hadmits.edits.seen_eq hsound.apply hunworn
  refine ⟨hturns, ?_, ⟨hlistings, hlistings'⟩, ⟨hupdate, ?_⟩, ?_, ?_, ?_⟩
  · intro before id turn after heq
    obtain ⟨y, hy, hturn⟩ := hturns.each before id turn after heq
    have hbefore := hworks.store_eq hstore before.length
    rw [heq, List.take_left] at hbefore
    refine ⟨hbefore, y, hy, ?_⟩
    rw [hturn]
    exact y.given_turn delta _
  · rw [History.editAll_append]
    exact hwaits.store_eq hupdate
  · intro done hpart
    rw [hstore]
    exact hseen done hpart
  · intro entry hentry h hh
    obtain ⟨e, he, rfl⟩ := hr.exists_visible hunworn hentry hh
    refine ⟨e, hstore ▸ he, rfl, ?_⟩
    intro done hpart
    obtain ⟨hadmits, hunworn⟩ := hdone done hpart
    exact hsound.resolves_editAll he hadmits hunworn
  · intro done cs h s hpart hc
    obtain ⟨hadmits, hunworn'⟩ := hdone done ((List.prefix_append done _).trans hpart)
    have hunseen := hsound.apply.not_seen_of_create hadmits hunworn' hc
    refine ⟨fun done' hpart' => by rwa [hseen done' hpart'], ?_⟩
    intro entry hentry hh
    have hm : listing entry ∈ w.applyChanges.systems.map listing :=
      hlistings' ▸ List.mem_map_of_mem hentry
    obtain ⟨old, hold, heq⟩ := List.mem_map.mp hm
    have hentities : old.2.entities = entry.2.entities := congrArg Prod.snd heq
    obtain ⟨e, he, rfl⟩ := hr.exists_visible hunworn hold (hentities ▸ hh)
    exact hunseen (List.mem_toFinset.mpr (List.mem_map_of_mem he))

/-! ## An identity that changes hands in a tick -/

def reapedKind : Kind := ⟨⟨3, by decide⟩⟩

/-- The past of a store with one entity, which is not visible yet. -/
def reapedPast : History Counter := (History.start 2).edit (.create [⟨reapedKind, 7⟩])

/-- A world in which a system destroys the entities that it lists and creates one on the identity of
the last, and another system comes after it. -/
def reapedWorld : ScriptedWorld :=
  let start := (World.empty 2 []).withStore reapedPast.store
  let first := (start.addSystem "reaper" (.single reapedKind) (.cadence .always)
    (Action.performAll "reaper" [.destroyEach, .create [⟨reapedKind, 9⟩]])).2
  (first.addSystem "observer" (.single reapedKind) (.cadence .always)
    (Action.performAll "observer" [.sum reapedKind])).2

def reapedOps : List (List (Edit Counter)) := [[.destroy ⟨0, 0⟩, .create [⟨reapedKind, 9⟩]], []]

/-- Both systems list the old entity, and the new one gains a component before the next update. -/
theorem isolated_update_of_reaped :
    let later : List (Edit Counter) := [.add ⟨0, 1⟩ ⟨⟨⟨5, by decide⟩⟩, 4⟩]
    let u := reapedPast.apply.editAll reapedOps.flatten
    let v := (reapedWorld.update .zero).2.withStore (u.editAll later).store
    Runs 2 [] reapedWorld reapedPast ∧
      Works reapedPast.apply reapedWorld.applyChanges.stage (reapedWorld.turnsAt .zero) reapedOps ∧
      Waits (reapedWorld.update .zero).2 u v later ∧
      (reapedPast.apply.editAll (reapedOps.flatten ++ later)).Unworn ∧
      v.shared.map (·.entities) = [[⟨0, 0⟩], [⟨0, 0⟩]] ∧
      Isolated reapedWorld reapedPast .zero reapedOps v later := by
  intro later u v
  have hr : Runs 2 [] reapedWorld reapedPast := by
    have hstart : Runs 2 [] (.empty 2 [] : ScriptedWorld) (.start 2) := .start
    have hcreated := hstart.edit (.create [⟨reapedKind, 7⟩]) (by intro h hh; cases hh)
    exact (hcreated.addSystem _ _ _ _).addSystem _ _ _ _
  have hworks : Works reapedPast.apply reapedWorld.applyChanges.stage
      (reapedWorld.turnsAt .zero) reapedOps := by
    let run : Run := ⟨"reaper", [⟨0, 0⟩], .zero, [.handle ⟨0, 1⟩]⟩
    let last : Run := ⟨"observer", [⟨0, 0⟩], .zero, [.sum 7]⟩
    have hturns : reapedWorld.turnsAt .zero =
        [(⟨0⟩, .works ⟨u.store, [run]⟩), (⟨1⟩, .works ⟨u.store, [last, run]⟩)] := rfl
    have hadmits : reapedPast.apply.AdmitsAll
        [.destroy ⟨0, 0⟩, .create [⟨reapedKind, 9⟩]] := by
      refine ⟨?_, ?_, trivial⟩
      · intro h hh
        cases hh
        exact List.mem_cons_self
      · intro h hh
        cases hh
    rw [hturns]
    exact .cons hadmits rfl (.cons trivial rfl (.nil _ _))
  have hwaits : Waits (reapedWorld.update .zero).2 u v later := by
    have hadmits : u.Admits (.add ⟨0, 1⟩ ⟨⟨⟨5, by decide⟩⟩, 4⟩) := by
      intro h hh
      cases hh
      exact List.mem_cons_self
    exact Waits.refl.edit _ hadmits
  have hw : (reapedPast.apply.editAll (reapedOps.flatten ++ later)).Unworn :=
    History.unworn_of_length_lt (by decide +kernel)
  exact ⟨hr, hworks, hwaits, hw, by decide +kernel, isolated_update hr hworks hwaits hw⟩

end World

end Realm
