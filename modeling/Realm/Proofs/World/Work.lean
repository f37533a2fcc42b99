import Mathlib.Algebra.Order.Ring.Nat
import Mathlib.Data.List.Nodup
import Realm.World.Basic

/-!
# Work that does not fail

Work secures a condition if from every stage of a given kind it ends without a failure, in a stage
and with a value of a given kind. The rules follow the ways in which work is put together, up to
the systems of a world and a whole tick.
-/

namespace Realm

variable {C σ P α β : Type}

namespace Work

/-- From a stage with `pre` the work ends without a failure, and with `post`. -/
def Secures (pre : Stage C σ → Prop) (w : Work C σ α) (post : α → Stage C σ → Prop) : Prop :=
  ∀ stage, pre stage → ∃ a after, w stage = .ok a after ∧ post a after

variable {pre pre' : Stage C σ → Prop} {w : Work C σ α} {post post' : α → Stage C σ → Prop}

theorem Secures.imp (hw : Secures pre w post) (hpre : ∀ stage, pre' stage → pre stage)
    (hpost : ∀ a stage, post a stage → post' a stage) : Secures pre' w post' := by
  intro stage hstage
  obtain ⟨a, after, hok, hafter⟩ := hw stage (hpre stage hstage)
  exact ⟨a, after, hok, hpost a after hafter⟩

theorem secures_pure {a : α} (h : ∀ stage, pre stage → post a stage) :
    Secures pre (pure a) post := fun stage hstage => ⟨a, stage, rfl, h stage hstage⟩

theorem Secures.bind {f : α → Work C σ β} {mid : α → Stage C σ → Prop}
    {post : β → Stage C σ → Prop} (hw : Secures pre w mid) (hf : ∀ a, Secures (mid a) (f a) post) :
    Secures pre (w >>= f) post := by
  intro stage hstage
  obtain ⟨a, after, hok, hafter⟩ := hw stage hstage
  obtain ⟨b, last, hok', hlast⟩ := hf a after hafter
  refine ⟨b, last, ?_, hlast⟩
  show EStateM.bind w f stage = _
  rw [EStateM.bind, hok]
  exact hok'

theorem Secures.discard {post : Unit → Stage C σ → Prop} (hw : Secures pre w fun _ => post ()) :
    Secures pre (discard w) post := by
  intro stage hstage
  obtain ⟨a, after, hok, hafter⟩ := hw stage hstage
  refine ⟨(), after, ?_, hafter⟩
  show EStateM.map _ w stage = _
  rw [EStateM.map, hok]

/-- What was read of the store is the store. -/
theorem secures_store : Secures pre Work.store fun s stage => pre stage ∧ stage.store = s :=
  fun stage hstage => ⟨stage.store, stage, rfl, hstage, rfl⟩

theorem secures_shared : Secures pre Work.shared fun l stage => pre stage ∧ stage.shared = l :=
  fun stage hstage => ⟨stage.shared, stage, rfl, hstage, rfl⟩

theorem secures_modifyShared {f : σ → σ} {post : Unit → Stage C σ → Prop}
    (h : ∀ stage, pre stage → post () { stage with shared := f stage.shared }) :
    Secures pre (modifyShared f) post := fun stage hstage => ⟨(), _, rfl, h stage hstage⟩

theorem secures_modifyStore {f : Store C → Store C} {post : Unit → Stage C σ → Prop}
    (h : ∀ stage, pre stage → post () { stage with store := f stage.store }) :
    Secures pre (modifyStore f) post := fun stage hstage => ⟨(), _, rfl, h stage hstage⟩

theorem secures_onStore {f : Store C → Except WorldError (α × Store C)}
    (h : ∀ stage, pre stage → ∃ a s, f stage.store = .ok (a, s) ∧
      post a { stage with store := s }) : Secures pre (onStore f) post := by
  intro stage hstage
  obtain ⟨a, s, hok, hpost⟩ := h stage hstage
  exact ⟨a, _, by rw [onStore, hok], hpost⟩

theorem secures_ite {c : Prop} [Decidable c] {w' : Work C σ α}
    (ht : c → Secures pre w post) (he : ¬ c → Secures pre w' post) :
    Secures pre (if c then w else w') post := by
  by_cases hc : c
  · rw [if_pos hc]
    exact ht hc
  · rw [if_neg hc]
    exact he hc

/-- What every element keeps, the whole list keeps. -/
theorem secures_forM {inv : Stage C σ → Prop} {f : α → Work C σ Unit} {xs : List α}
    (h : ∀ x ∈ xs, Secures inv (f x) fun _ => inv) : Secures inv (xs.forM f) fun _ => inv := by
  induction xs with
  | nil => exact secures_pure fun _ hstage => hstage
  | cons x xs ih =>
      have hrest := ih fun y hy => h y (List.mem_cons_of_mem x hy)
      exact (h x List.mem_cons_self).bind fun _ => hrest

end Work

/-! ## Systems and ticks -/

namespace System

/-- Following transitions alters the entities of a system and nothing else of it. -/
theorem follow_eq (y : System C σ P) (transitions : List Transition) :
    transitions.foldl follow y =
      { y with entities := (transitions.foldl follow y).entities } := by
  induction transitions generalizing y with
  | nil => rfl
  | cons transition rest ih =>
      have hresubscribe : ∀ h mask, ∃ entities, y.resubscribe h mask = { y with entities } := by
        intro h mask
        unfold resubscribe
        split
        · split
          · exact ⟨_, rfl⟩
          · exact ⟨_, rfl⟩
        · exact ⟨_, rfl⟩
      obtain ⟨entities, heq⟩ : ∃ entities, y.follow transition = { y with entities } := by
        cases transition with
        | added h mask => exact hresubscribe h mask
        | changed h mask => exact hresubscribe h mask
        | removed h => exact ⟨_, rfl⟩
      rw [List.foldl_cons, heq]
      exact ih { y with entities }

/-- A run of a system may alter its policy and nothing else of it. -/
theorem run_eq [Policy P] (y : System C σ P) (delta : Duration) (stage : Stage C σ) :
    ∃ policy, (y.run delta stage).2.1 = { y with policy } := by
  unfold run
  split
  · exact ⟨_, rfl⟩
  · exact ⟨_, rfl⟩
  · split <;> exact ⟨_, rfl⟩

end System

namespace World

variable {w : World C σ P} {good : (List Handle → Duration → Work C σ Unit) → Prop}

/-- Running systems may alter their policies and nothing else of them. -/
theorem mem_runSystems [Policy P] {delta : Duration} {stage : Stage C σ}
    {systems : List (SystemId × System C σ P)} {entry : SystemId × System C σ P}
    (hm : entry ∈ (runSystems delta stage systems).2.1) :
    ∃ old ∈ systems, ∃ policy, entry.2 = { old.2 with policy } := by
  induction systems generalizing stage with
  | nil => cases hm
  | cons first rest ih =>
      obtain ⟨id, y⟩ := first
      obtain ⟨policy, hpolicy⟩ := y.run_eq delta stage
      unfold runSystems at hm
      cases hresult : y.run delta stage with
      | mk result after =>
          obtain ⟨z, stage'⟩ := after
          rw [hresult] at hm hpolicy
          cases result with
          | error e =>
              rcases List.mem_cons.mp hm with rfl | hm
              · exact ⟨(id, y), List.mem_cons_self, policy, hpolicy⟩
              · exact ⟨entry, List.mem_cons_of_mem _ hm, entry.2.policy, rfl⟩
          | ok _ =>
              rcases List.mem_cons.mp hm with rfl | hm
              · exact ⟨(id, y), List.mem_cons_self, policy, hpolicy⟩
              · obtain ⟨old, hold, heq⟩ := ih hm
                exact ⟨old, List.mem_cons_of_mem _ hold, heq⟩

/-- Every system of a world, also one that joins, does work of some kind. -/
def Does (good : (List Handle → Duration → Work C σ Unit) → Prop) (w : World C σ P) : Prop :=
  (∀ entry ∈ w.systems, good entry.2.process) ∧ ∀ entry ∈ w.joining, good entry.2.process

/-- The first phase of a tick keeps the systems that stay, but for the entities they list. -/
theorem map_applyChanges_of (w : World C σ P) {f : SystemId × System C σ P → α}
    (hf : ∀ id (y : System C σ P) entities, f (id, { y with entities }) = f (id, y)) :
    w.applyChanges.systems.map f =
      ((w.systems ++ w.joining).filter fun entry => !w.leaving.contains entry.1).map f := by
  rw [applyChanges, List.filter_append, List.map_append, List.map_append, List.filter_map,
    List.map_map, List.map_map]
  congr 1
  · refine List.map_congr_left fun entry _ => ?_
    show f (entry.1, w.store.apply.1.foldl System.follow entry.2) = f entry
    rw [System.follow_eq, hf]
  · exact List.map_congr_left fun entry _ => hf entry.1 entry.2 _

/-- If no system leaves, what is known of the systems but for their entities stays in the first phase
of a tick. -/
theorem map_applyChanges {w : World C σ P} (hleaving : w.leaving = []) {f : System C σ P → α}
    (hf : ∀ (y : System C σ P) entities, f { y with entities } = f y) :
    w.applyChanges.systems.map (fun entry => f entry.2) =
      (w.systems ++ w.joining).map fun entry => f entry.2 := by
  rw [w.map_applyChanges_of fun _ y entities => hf y entities, hleaving]
  simp only [List.contains_nil, Bool.not_false, List.filter_true]

theorem does_empty (capacity : UInt32) (shared : σ) :
    (World.empty capacity shared : World C σ P).Does good := by
  constructor
  · intro entry hm
    cases hm
  · intro entry hm
    cases hm

theorem Does.addSystem {name : String} {interest : Mask} {policy : P}
    {process : List Handle → Duration → Work C σ Unit} (hw : w.Does good) (hp : good process) :
    (w.addSystem name interest policy process).2.Does good := by
  refine ⟨hw.1, ?_⟩
  intro entry hm
  rcases List.mem_append.mp hm with hm | hm
  · exact hw.2 entry hm
  · rw [List.mem_singleton.mp hm]
    exact hp

theorem does_applyChanges (hw : w.Does good) : w.applyChanges.Does good := by
  refine ⟨?_, fun entry hm => by cases hm⟩
  intro entry hm
  rcases List.mem_append.mp hm with hm | hm
  · obtain ⟨hm, -⟩ := List.mem_filter.mp hm
    obtain ⟨⟨id, y⟩, hold, rfl⟩ := List.mem_map.mp hm
    show good (w.store.apply.1.foldl System.follow y).process
    rw [y.follow_eq]
    exact hw.1 (id, y) hold
  · obtain ⟨⟨id, y⟩, hold, rfl⟩ := List.mem_map.mp hm
    exact hw.2 (id, y) (List.mem_filter.mp hold).1

theorem does_update [Policy P] (hw : w.Does good) (delta : Duration) :
    (w.update delta).2.Does good := by
  have hdoes := does_applyChanges hw
  refine ⟨?_, hdoes.2⟩
  intro entry hm
  obtain ⟨old, hold, policy, heq⟩ := mem_runSystems hm
  rw [heq]
  exact hdoes.1 old hold

section Secures

variable [Policy P] {inv : Stage C σ → Prop}

/-- Systems whose work keeps a condition, with policies that always decide. -/
theorem runSystems_of_secures {systems : List (SystemId × System C σ P)}
    (hpolicy : ∀ (p : P) delta, ∃ fires, (Policy.decide p delta).1 = .ok fires)
    (hsystems : ∀ entry ∈ systems, ∀ entities delta,
      Work.Secures inv (entry.2.process entities delta) fun _ => inv)
    (delta : Duration) {stage : Stage C σ} (hstage : inv stage) :
    ∃ after last, runSystems delta stage systems = (.ok (), after, last) ∧ inv last := by
  induction systems generalizing stage with
  | nil => exact ⟨[], stage, rfl, hstage⟩
  | cons first rest ih =>
      obtain ⟨id, y⟩ := first
      have hrun : ∃ fired z mid, y.run delta stage = (.ok fired, z, mid) ∧ inv mid := by
        obtain ⟨fires, hfires⟩ := hpolicy y.policy delta
        have hwork : Work.Secures inv (y.process y.entities delta) fun _ => inv :=
          hsystems (id, y) List.mem_cons_self y.entities delta
        obtain ⟨value, after, hok, hafter⟩ := hwork stage hstage
        cases hdecide : Policy.decide y.policy delta with
        | mk result policy =>
            obtain rfl : result = .ok fires := by rw [hdecide] at hfires; exact hfires
            unfold System.run
            rw [hdecide]
            cases fires with
            | false => exact ⟨_, _, _, rfl, hstage⟩
            | true =>
                simp only [hok]
                exact ⟨_, _, _, rfl, hafter⟩
      obtain ⟨fired, z, mid, hrun, hmid⟩ := hrun
      obtain ⟨after, last, hrest, hlast⟩ :=
        ih (fun entry hm => hsystems entry (List.mem_cons_of_mem _ hm)) hmid
      exact ⟨(id, z) :: after, last, by simp only [runSystems, hrun, hrest], hlast⟩

/-- A tick of a world whose systems keep a condition does not fail and keeps it too. -/
theorem update_of_secures
    (hpolicy : ∀ (p : P) delta, ∃ fires, (Policy.decide p delta).1 = .ok fires)
    (hw : w.Does fun process => ∀ entities delta,
      Work.Secures inv (process entities delta) fun _ => inv)
    (delta : Duration) (hstage : inv w.applyChanges.stage) :
    ∃ w', w.update delta = (.ok (), w') ∧ inv w'.stage := by
  obtain ⟨after, last, hrun, hlast⟩ :=
    runSystems_of_secures hpolicy (does_applyChanges hw).1 delta hstage
  let w' : World C σ P :=
    { w.applyChanges with stage := last, systems := after, ticks := w.applyChanges.ticks + 1 }
  exact ⟨w', by rw [update, runTick, hrun], hlast⟩

end Secures

end World

end Realm
