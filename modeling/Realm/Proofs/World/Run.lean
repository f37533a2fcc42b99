import Realm.Proofs.World.Subscription
import Realm.Proofs.World.Work
import Realm.World.Script

/-!
# Subscriptions along a run

Main statement: whenever the systems of a world run, each lists exactly the visible entities that
have one of the kinds it is interested in, whatever happened to the entities and the systems before.
The work of a tick enters a run only through what it did to the store.
-/

namespace Realm

variable {C σ P : Type}

namespace World

/-- A world of a capacity with the past of its store. Between two ticks anything may be done to the
entities and the systems; the work of a tick may do to the entities what may be done in between,
and may fail. Only a tick applies changes. -/
inductive Runs [Component C] [Policy P] (capacity : UInt32) (shared : σ) :
    World C σ P → History C → Prop
  | start : Runs capacity shared (.empty capacity shared) (.start capacity)
  | edit {w : World C σ P} {t : History C} (before : Runs capacity shared w t) (e : Edit C)
      (admits : t.Admits e) : Runs capacity shared (w.withStore (t.edit e).store) (t.edit e)
  | share {w : World C σ P} {t : History C} (before : Runs capacity shared w t) (value : σ) :
      Runs capacity shared (w.withShared value) t
  | addSystem {w : World C σ P} {t : History C} (before : Runs capacity shared w t)
      (name : String) (interest : Mask) (policy : P)
      (process : List Handle → Duration → Work C σ Unit) :
      Runs capacity shared (w.addSystem name interest policy process).2 t
  | removeSystem {w : World C σ P} {t : History C} (before : Runs capacity shared w t)
      (id : SystemId) : Runs capacity shared (w.removeSystem id) t
  | update {w : World C σ P} {t u : History C} (before : Runs capacity shared w t)
      (delta : Duration) (work : t.apply.Edits u) (left : (w.update delta).2.store = u.store) :
      Runs capacity shared (w.update delta).2 u

/-- Every system of a world is up to date but for what is noted, and none is listed that joins. -/
structure Faithful (w : World C σ P) : Prop where
  follows : ∀ entry ∈ w.systems, entry.2.Follows w.store w.store.changes.toList
  joining : ∀ entry ∈ w.joining, entry.2.entities = []

/-! ## Subscriptions along a run -/

theorem store_applyChanges (w : World C σ P) : w.applyChanges.store = w.store.apply.2 := rfl

/-- The first phase of a tick brings all systems up to date, if the noted changes apply one after the
other. -/
theorem Faithful.follows_applyChanges_of {w : World C σ P} (hf : w.Faithful)
    (inv : Store C → List Change → Prop) (hs : inv { w.store with changes := #[] } w.store.changes.toList)
    (happlies : ∀ s change rest, inv s (change :: rest) →
      s.Applies change (s.applyChange change).1 (s.applyChange change).2 ∧
        inv (s.applyChange change).2 rest) (hp : w.store.apply.2.Placed) :
    ∀ entry ∈ w.applyChanges.systems, entry.2.Follows w.applyChanges.store [] := by
  intro entry hm
  rcases List.mem_append.mp hm with hm | hm
  · obtain ⟨hm, -⟩ := List.mem_filter.mp hm
    obtain ⟨⟨id, y⟩, hold, rfl⟩ := List.mem_map.mp hm
    have hsame : y.Follows ({ w.store with changes := #[] } : Store C) w.store.changes.toList :=
      (hf.follows (id, y) hold).congr (by intro h; rfl) (fun _ hm => hm)
    exact hsame.applyChanges_of inv hs happlies
  · obtain ⟨⟨id, y⟩, hold, rfl⟩ := List.mem_map.mp hm
    obtain ⟨hold, -⟩ := List.mem_filter.mp hold
    exact System.follows_backfill (hf.joining (id, y) hold) hp []

theorem Faithful.follows_applyChanges {w : World C σ P} (hf : w.Faithful) (ht : w.store.Tidy)
    (hq : w.store.Queued w.store.changes.toList) :
    ∀ entry ∈ w.applyChanges.systems, entry.2.Follows w.applyChanges.store [] := by
  have happlies : ∀ (s : Store C) change rest, s.Tidy ∧ s.Queued (change :: rest) →
      s.Applies change (s.applyChange change).1 (s.applyChange change).2 ∧
        (s.applyChange change).2.Tidy ∧ (s.applyChange change).2.Queued rest := by
    rintro s change rest ⟨ht, hq⟩
    have ha := Store.applies ht hq
    exact ⟨ha, ha.tidy ht, ha.queued ht hq⟩
  exact hf.follows_applyChanges_of (fun s queue => s.Tidy ∧ s.Queued queue)
    ⟨ht.with_changes #[], hq.with_changes #[]⟩ happlies (Store.apply_settles ht hq).tidy.placed

section Runs

variable [Component C] [Policy P] {capacity : UInt32} {shared : σ} {w : World C σ P}
  {t : History C}

theorem Runs.store_eq (hr : Runs capacity shared w t) : w.store = t.store := by
  induction hr with
  | start => rfl
  | edit before e admits ih => rfl
  | share before value ih => exact ih
  | addSystem before name interest policy process ih => exact ih
  | removeSystem before id ih => exact ih
  | update before delta work left ih => exact left

theorem Runs.reaches (hr : Runs capacity shared w t) : (History.start capacity).Reaches t := by
  induction hr with
  | start => exact .refl
  | edit before e admits ih => exact ih.edit e admits
  | share before value ih => exact ih
  | addSystem before name interest policy process ih => exact ih
  | removeSystem before id ih => exact ih
  | update before delta work left ih => exact (ih.apply).trans work.reaches

theorem Runs.faithful (hr : Runs capacity shared w t) (hw : t.Unworn) : w.Faithful := by
  induction hr with
  | start =>
      refine ⟨?_, ?_⟩
      · intro entry hm
        cases hm
      · intro entry hm
        cases hm
  | @edit w t before e admits ih =>
      have hw' := hw.of_suffix (History.suffix_destroyed_edit t e)
      have hsound := before.reaches.sound (.start capacity) hw'
      have hf := ih hw'
      refine ⟨?_, hf.joining⟩
      intro entry hm
      have hfollows := hf.follows entry hm
      rw [before.store_eq] at hfollows
      exact hfollows.moves (History.moves hsound.tidy admits)
  | share before value ih => exact ⟨(ih hw).follows, (ih hw).joining⟩
  | addSystem before name interest policy process ih =>
      refine ⟨(ih hw).follows, ?_⟩
      intro entry hm
      rcases List.mem_append.mp hm with hm | hm
      · exact (ih hw).joining entry hm
      · rw [List.mem_singleton.mp hm]
  | removeSystem before id ih => exact ⟨(ih hw).follows, (ih hw).joining⟩
  | @update w t u before delta work left ih =>
      have hw' := hw.of_suffix work.reaches.suffix_destroyed
      have hsound := before.reaches.sound (.start capacity) hw'
      have hstore := before.store_eq
      have happlied := (ih hw').follows_applyChanges (hstore ▸ hsound.tidy) (hstore ▸ hsound.queued)
      refine ⟨?_, fun entry hm => by cases hm⟩
      intro entry hm
      obtain ⟨old, hold, policy, heq⟩ := mem_runSystems hm
      have hfollows : entry.2.Follows w.applyChanges.store [] := by
        rw [heq]
        exact (happlied old hold).of_eq rfl rfl
      rw [store_applyChanges, hstore] at hfollows
      have hchanges : t.apply.store.changes.toList = [] := by
        rw [show t.apply.store.changes = #[] from Store.changes_apply hsound.tidy hsound.queued]
      rw [left]
      refine System.Follows.edits ?_ hsound.apply work hw
      rw [hchanges]
      exact hfollows

/-- When the systems of a tick run, each lists every visible entity of a kind it is interested in,
once, and no other. Systems with the same interest list the same, whenever they joined. -/
theorem entities_exact (hr : Runs capacity shared w t) (hw : t.Unworn) :
    (∀ entry ∈ w.applyChanges.systems, entry.2.entities.Nodup ∧
      ∀ h, h ∈ entry.2.entities ↔ ∃ e ∈ w.applyChanges.store.visible, e.handle = h ∧
        entry.2.interest.intersects e.mask = true) ∧
    ∀ a ∈ w.applyChanges.systems, ∀ b ∈ w.applyChanges.systems,
      a.2.interest = b.2.interest → a.2.entities.Perm b.2.entities := by
  have hsound := hr.reaches.sound (.start capacity) hw
  have hstore := hr.store_eq
  have ht : w.store.Tidy := hstore ▸ hsound.tidy
  have hq : w.store.Queued w.store.changes.toList := hstore ▸ hsound.queued
  have hfollows := (hr.faithful hw).follows_applyChanges ht hq
  have hexact : ∀ entry ∈ w.applyChanges.systems, ∀ h, h ∈ entry.2.entities ↔
      ∃ e ∈ w.applyChanges.store.visible, e.handle = h ∧
        entry.2.interest.intersects e.mask = true := by
    intro entry hm
    exact (hfollows entry hm).mem_entities_iff (Store.apply_settles ht hq).tidy
  refine ⟨fun entry hm => ⟨(hfollows entry hm).nodup, hexact entry hm⟩, ?_⟩
  intro a ha b hb hinterest
  refine (List.perm_ext_iff_of_nodup (hfollows a ha).nodup (hfollows b hb).nodup).mpr ?_
  intro h
  rw [hexact a ha, hexact b hb, hinterest]

end Runs

/-! ## A run with a late system -/

theorem discard_create (cs : List Counter) (stage : Stage Counter RunLog) :
    (discard (Work.create cs : Work Counter RunLog Handle)) stage =
      match stage.store.create cs with
      | .ok (_, s) => .ok () { stage with store := s }
      | .error e => .error e stage := by
  cases hc : stage.store.create cs <;>
    simp [discard, Functor.mapConst, EStateM.map, Work.create, Work.onStore, hc]

/-- The tick of a world whose one system creates an entity. -/
theorem store_update_of_creating (t : History Counter) (cs : List Counter) (interest : Mask) :
    let w : ScriptedWorld := (World.empty 2 []).withStore t.store
    let v := (w.addSystem "early" interest (.cadence .always) fun _ _ => discard (Work.create cs)).2
    (v.update .zero).2.store = (t.apply.edit (.create cs)).store := by
  intro w v
  have hstage : v.applyChanges.stage = ⟨t.apply.store, []⟩ := rfl
  have hsystems : v.applyChanges.systems =
      [(⟨0⟩, (⟨"early", interest, .cadence .always, fun _ _ => discard (Work.create cs), []⟩ :
        System Counter RunLog ScriptedPolicy).backfill t.apply.store)] := rfl
  cases hc : t.apply.store.create cs <;>
    simp [World.update, runTick, hsystems, hstage, runSystems, System.run, Policy.decide,
      Cadence.advance, System.backfill, discard_create, History.edit, store, hc]

/-- A system that creates an entity at the tick it joins, and one that joins after that tick. -/
theorem entities_exact_of_late :
    let kind : Kind := ⟨⟨3, by decide⟩⟩
    let t := (History.start 2 : History Counter).edit (.create [⟨kind, 7⟩])
    let u := t.apply.edit (.create [⟨kind, 9⟩])
    let w : ScriptedWorld := (World.empty 2 []).withStore t.store
    let v := (w.addSystem "early" (.single kind) (.cadence .always) fun _ _ =>
      discard (Work.create [⟨kind, 9⟩])).2
    let x := ((v.update .zero).2.addSystem "late" (.single kind) (.cadence .always) fun _ _ =>
      pure ()).2
    Runs 2 [] x u ∧ u.Unworn ∧
      (∀ entry ∈ x.applyChanges.systems, entry.2.entities.Nodup ∧
        ∀ h, h ∈ entry.2.entities ↔ ∃ e ∈ x.applyChanges.store.visible, e.handle = h ∧
          entry.2.interest.intersects e.mask = true) ∧
      ∀ a ∈ x.applyChanges.systems, ∀ b ∈ x.applyChanges.systems,
        a.2.interest = b.2.interest → a.2.entities.Perm b.2.entities := by
  intro kind t u w v x
  have hr : Runs 2 [] x u := by
    have hw : Runs 2 [] w t := .edit .start _ (by intro h hh; cases hh)
    have hv : Runs 2 [] v t := hw.addSystem _ _ _ _
    have hu : t.apply.Edits u := .edit .refl _ (by intro h hh; cases hh)
    exact (hv.update .zero hu (store_update_of_creating t _ _)).addSystem _ _ _ _
  have hw : u.Unworn := History.unworn_of_length_lt (by decide +kernel)
  exact ⟨hr, hw, entities_exact hr hw⟩

end World

end Realm
