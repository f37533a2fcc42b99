import Realm.Proofs.World.Work

/-!
# Work that keeps what is shared in order

Work keeps a condition on the shared value if the condition outlasts it, whether the work ends well
or with a failure. The rules follow the ways in which work is put together. Nothing is asked of
the store, of the policies or of the order of the systems.
-/

namespace Realm

variable {C σ P α β : Type} {good : σ → Prop}

namespace Work

def last (w : Work C σ α) (stage : Stage C σ) : Stage C σ :=
  match w stage with
  | .ok _ after | .error _ after => after

/-! ## Work that ends well -/

section Ok

variable {w : Work C σ α} {stage after : Stage C σ} {a : α}

theorem last_of_ok (h : w stage = .ok a after) : w.last stage = after := by rw [last, h]

theorem bind_of_ok {f : α → Work C σ β} (h : w stage = .ok a after) :
    (w >>= f) stage = f a after := by
  show EStateM.bind w f stage = _
  rw [EStateM.bind, h]

theorem discard_of_ok (h : w stage = .ok a after) : (discard w) stage = .ok () after := by
  show EStateM.map _ w stage = _
  rw [EStateM.map, h]

theorem onStore_of_ok {f : Store C → Except WorldError (α × Store C)} {s : Store C}
    (h : f stage.store = .ok (a, s)) : onStore f stage = .ok a { stage with store := s } := by
  rw [onStore, h]

end Ok

/-! ## Work that keeps a condition -/

def Keeps (good : σ → Prop) (w : Work C σ α) : Prop :=
  ∀ stage, good stage.shared → good (w.last stage).shared

variable {w : Work C σ α}

theorem keeps_pure (a : α) : Keeps good (pure a : Work C σ α) := fun _ h => h

theorem Keeps.bind {f : α → Work C σ β} (hw : Keeps good w) (hf : ∀ a, Keeps good (f a)) :
    Keeps good (w >>= f) := by
  intro stage h
  have hfirst := hw stage h
  show good (last (EStateM.bind w f) stage).shared
  unfold last at hfirst ⊢
  unfold EStateM.bind
  cases hrun : w stage with
  | ok a after =>
      rw [hrun] at hfirst
      exact hf a after hfirst
  | error e after =>
      rw [hrun] at hfirst
      exact hfirst

/-- What was read of the shared value is known to be in order. -/
theorem keeps_shared_bind {f : σ → Work C σ β} (hf : ∀ s, good s → Keeps good (f s)) :
    Keeps good (Work.shared >>= f) := fun stage h => hf stage.shared h stage h

theorem keeps_store_bind {f : Store C → Work C σ β} (hf : ∀ s, Keeps good (f s)) :
    Keeps good (Work.store >>= f) := fun stage h => hf stage.store stage h

theorem Keeps.discard (hw : Keeps good w) : Keeps good (discard w) := by
  intro stage h
  have hfirst := hw stage h
  show good (last (EStateM.map _ w) stage).shared
  unfold last at hfirst ⊢
  unfold EStateM.map
  cases hrun : w stage with
  | ok a after =>
      rw [hrun] at hfirst
      exact hfirst
  | error e after =>
      rw [hrun] at hfirst
      exact hfirst

theorem keeps_modifyShared {f : σ → σ} (hf : ∀ s, good s → good (f s)) :
    Keeps good (modifyShared f : Work C σ Unit) := fun stage h => hf stage.shared h

theorem keeps_modifyStore (f : Store C → Store C) :
    Keeps good (modifyStore f : Work C σ Unit) := fun _ h => h

theorem keeps_onStore (f : Store C → Except WorldError (α × Store C)) :
    Keeps good (onStore f : Work C σ α) := by
  intro stage h
  unfold last onStore
  cases f stage.store with
  | ok result => exact h
  | error e => exact h

theorem keeps_ite {c : Prop} [Decidable c] {w' : Work C σ α} (hw : Keeps good w)
    (hw' : Keeps good w') : Keeps good (if c then w else w') := by
  split
  · exact hw
  · exact hw'

theorem keeps_forM {f : α → Work C σ Unit} (h : ∀ x, Keeps good (f x)) (xs : List α) :
    Keeps good (xs.forM f) := by
  induction xs with
  | nil => exact keeps_pure ()
  | cons x xs ih => exact (h x).bind fun _ => ih

end Work

variable [Policy P]

/-- A system keeps what its work keeps. -/
theorem System.keeps_run {y : System C σ P}
    (hy : ∀ entities delta, Work.Keeps good (y.process entities delta)) (delta : Duration)
    {stage : Stage C σ} (h : good stage.shared) : good (y.run delta stage).2.2.shared := by
  have hwork : good (Work.last (y.process y.entities delta) stage).shared :=
    hy y.entities delta stage h
  unfold Work.last at hwork
  unfold System.run
  split
  · exact h
  · exact h
  · cases hrun : y.process y.entities delta stage with
    | ok a after =>
        rw [hrun] at hwork
        exact hwork
    | error e after =>
        rw [hrun] at hwork
        exact hwork

namespace World

theorem keeps_runSystems {systems : List (SystemId × System C σ P)}
    (hsystems : ∀ entry ∈ systems, ∀ entities delta,
      Work.Keeps good (entry.2.process entities delta))
    (delta : Duration) {stage : Stage C σ} (h : good stage.shared) :
    good (runSystems delta stage systems).2.2.shared := by
  induction systems generalizing stage with
  | nil => exact h
  | cons entry rest ih =>
      obtain ⟨id, y⟩ := entry
      have hrun := System.keeps_run (hsystems (id, y) List.mem_cons_self) delta h
      have hrest := fun entry hm => hsystems entry (List.mem_cons_of_mem _ hm)
      unfold runSystems
      cases hy : y.run delta stage with
      | mk result after =>
          obtain ⟨z, stage'⟩ := after
          rw [hy] at hrun
          cases result with
          | error e => exact hrun
          | ok fired => exact ih hrest hrun

/-- A tick keeps what the work of all systems keeps. -/
theorem keeps_update {w : World C σ P}
    (hw : w.Does fun process => ∀ entities delta, Work.Keeps good (process entities delta))
    (delta : Duration) (h : good w.shared) : good (w.update delta).2.shared :=
  keeps_runSystems (does_applyChanges hw).1 delta h

end World

end Realm
