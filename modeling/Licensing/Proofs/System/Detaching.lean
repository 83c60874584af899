import Licensing.Proofs.System.Atomicity
import Licensing.Proofs.System.Strands

/-!
# Programs that do not look back

A task that is handed over writes to one of the two stores, later or never. A program detaches
itself from its tasks (`Program.Detaches`) if it asks nothing more of that store once it has handed
the task over. Then nothing that becomes of its tasks can show in what it does: two strands of such
a program stay the same although their tasks fare differently (`Strand.Detached.proceed`,
`Strand.Detached.work`), and so does the part of the stores that they still look at
(`Stores.AgreeOn`).

Both rest on the two stores being apart: what a call is answered, and what it makes of the store
that it asks, that store and the clock decide (`Shared.perform_agree`), and a task spares the other
store (`Shared.worked_spares`). That a program detaches itself is settled by its shape
(`Program.Detaches.bind`, `Program.Only.detaches_bind`), without any store.
-/

namespace Licensing

open Program (Only)

/-! ### The two stores -/

/-- The stores agree on the licenses, or else on the keys. -/
def Stores.AgreeOn (onLicenses : Bool) (a b : Stores) : Prop :=
  if onLicenses then a.licenses = b.licenses else a.keys = b.keys

namespace Stores

variable {a b c : Stores} {side : Bool} {call : StoreCall}

@[refl] theorem AgreeOn.refl (side : Bool) (a : Stores) : a.AgreeOn side a := by
  unfold AgreeOn
  split <;> rfl

theorem AgreeOn.symm (h : a.AgreeOn side b) : b.AgreeOn side a := by
  unfold AgreeOn at h ⊢
  split <;> simp_all

theorem AgreeOn.trans (hab : a.AgreeOn side b) (hbc : b.AgreeOn side c) : a.AgreeOn side c := by
  unfold AgreeOn at hab hbc ⊢
  split <;> simp_all

/-- A call on licenses is answered by the licenses. -/
theorem answer_eq_of_onLicenses (now : Instant) (h : call.onLicenses = true) :
    a.answer now call =
      let answered := (⟨a.licenses, .empty⟩ : Stores).answer now call
      (answered.1, ⟨answered.2.licenses, a.keys⟩) := by
  rcases a with ⟨licenses, keys⟩
  cases call with
  | create license =>
    simp only [answer]
    cases licenses.create license <;> rfl
  | updateStatus id status =>
    simp only [answer]
    cases licenses.updateStatus id status now <;> rfl
  | updateMetadata id metadata =>
    simp only [answer]
    cases licenses.updateMetadata id metadata now <;> rfl
  | update edit =>
    simp only [answer]
    cases licenses.update edit now <;> rfl
  | findById | findByKey | list | dashboard => rfl
  | findEnabledKey | createKey | updateLastUsed | listKeys | disableKey => cases h

/-- A call on keys is answered by the keys. -/
theorem answer_eq_of_onKeys (now : Instant) (h : call.onLicenses = false) :
    a.answer now call =
      let answered := (⟨.empty, a.keys⟩ : Stores).answer now call
      (answered.1, ⟨a.licenses, answered.2.keys⟩) := by
  rcases a with ⟨licenses, keys⟩
  cases call with
  | createKey key =>
    simp only [answer]
    cases keys.create key <;> rfl
  | updateLastUsed id time =>
    simp only [answer]
    cases keys.updateLastUsed id time <;> rfl
  | disableKey id =>
    simp only [answer]
    cases keys.disable id <;> rfl
  | findEnabledKey | listKeys => rfl
  | create | findById | findByKey | list | updateStatus | updateMetadata | update | dashboard =>
    cases h

/-- A call leaves the store that it does not ask as it was. -/
theorem agreeOn_answer (a : Stores) (now : Instant) (h : call.onLicenses ≠ side) :
    (a.answer now call).2.AgreeOn side a := by
  cases side with
  | true =>
    rw [answer_eq_of_onKeys now (Bool.eq_false_iff.2 h)]
    exact rfl
  | false =>
    rw [answer_eq_of_onLicenses now (Bool.not_eq_false _ ▸ h)]
    exact rfl

/-- What a call is answered, and what it makes of the store that it asks, that store decides. -/
theorem AgreeOn.answer (h : a.AgreeOn call.onLicenses b) (now : Instant) :
    (a.answer now call).1 = (b.answer now call).1 ∧
      (a.answer now call).2.AgreeOn call.onLicenses (b.answer now call).2 := by
  cases hside : call.onLicenses with
  | true =>
    have hlicenses : a.licenses = b.licenses := by rwa [hside] at h
    rw [answer_eq_of_onLicenses now hside, answer_eq_of_onLicenses (a := b) now hside, hlicenses]
    exact ⟨rfl, rfl⟩
  | false =>
    have hkeys : a.keys = b.keys := by rwa [hside] at h
    rw [answer_eq_of_onKeys now hside, answer_eq_of_onKeys (a := b) now hside, hkeys]
    exact ⟨rfl, rfl⟩

end Stores

/-- The effect does not ask the one store. -/
def Effect.Avoids (onLicenses : Bool) : Effect → Prop
  | .store call => call.onLicenses ≠ onLicenses
  | _ => True

theorem Effect.Local.avoids {effect : Effect} (h : effect.Local) (side : Bool) :
    effect.Avoids side := by
  cases effect with
  | store | submit => cases h
  | _ => trivial

/-- Whether the task writes to licenses, and not to keys. -/
def Task.onLicenses : Task → Bool
  | expire _ | enrich _ _ => true
  | noteUse _ => false

namespace Shared

variable {x y : Shared} {side : Bool} {effect : Effect}

/-- An effect that avoids a store leaves it as it was. -/
theorem agreeOn_perform (x : Shared) (chance : Chance) (h : effect.Avoids side) :
    (x.perform chance effect).2.stores.AgreeOn side x.stores := by
  cases effect with
  | store call =>
    rcases hchance : chance.failure with - | failure
    · rw [perform_store_of_none hchance]
      exact x.stores.agreeOn_answer x.now h
    · rw [perform_store_of_failure hchance]
  | _ => exact .refl _ _

/-- **A program that avoids a store** leaves it as it was, from its first effect to its last, and
the clock as well. -/
theorem agreeOn_run {α : Type} {p : Program α} (h : p.Only (Effect.Avoids side)) (x : Shared)
    (chance : Chance) :
    (x.run chance p).2.now = x.now ∧ (x.run chance p).2.stores.AgreeOn side x.stores := by
  induction p generalizing x with
  | done value => exact ⟨rfl, .refl _ _⟩
  | act effect next ih =>
    obtain ⟨hnow, hagree⟩ := ih _ (h.2 _) (x.perform chance effect).2
    exact ⟨hnow.trans (perform_now effect), hagree.trans (x.agreeOn_perform chance h.1)⟩

/-- A task leaves the clock alone, and the store that it is not about. -/
theorem worked_spares (x : Shared) (chance : Chance) {task : Task} (h : task.onLicenses ≠ side) :
    (x.worked chance task).now = x.now ∧ (x.worked chance task).stores.AgreeOn side x.stores := by
  refine agreeOn_run ?_ x chance
  cases task with
  | expire id => exact Only.except_bind (.call h) fun _ ↦ .lift _ trivial
  | enrich id metadata => exact .call h
  | noteUse id => exact Only.except_bind (.lift .clock trivial) fun _ ↦ .call h

/-- What an effect is answered is decided by the clock and by the store that it asks, and so is
what it makes of that store. -/
theorem perform_agree (chance : Chance) (hnow : x.now = y.now)
    (h : ∀ side, ¬ effect.Avoids side → x.stores.AgreeOn side y.stores) :
    (x.perform chance effect).1 = (y.perform chance effect).1 ∧
      ∀ side, x.stores.AgreeOn side y.stores →
        (x.perform chance effect).2.stores.AgreeOn side (y.perform chance effect).2.stores := by
  cases effect with
  | clock => exact ⟨hnow, fun _ ↦ id⟩
  | store call =>
    have hasked : x.stores.AgreeOn call.onLicenses y.stores := h _ fun hother ↦ hother rfl
    rcases hchance : chance.failure with - | failure
    · simp only [perform_store_of_none hchance, hnow]
      obtain ⟨hanswer, hafter⟩ := hasked.answer y.now
      refine ⟨hanswer, fun side hside ↦ ?_⟩
      by_cases hsame : call.onLicenses = side
      · exact hsame ▸ hafter
      · refine (x.stores.agreeOn_answer y.now hsame).trans (hside.trans ?_)
        exact (y.stores.agreeOn_answer y.now hsame).symm
    · rw [perform_store_of_failure hchance, perform_store_of_failure hchance]
      exact ⟨rfl, fun _ ↦ id⟩
  | freshId | drawKey | submit | count | log => exact ⟨rfl, fun _ ↦ id⟩

end Shared

/-! ### Programs -/

namespace Program

variable {α β : Type}

/-- Once a task is handed over, the store that it is about is not asked any more. -/
def Detaches : Program α → Prop
  | .done _ => True
  | .act effect next => ∀ answer,
      (∀ task ∈ effect.tasks, (next answer).Only (Effect.Avoids task.onLicenses)) ∧
        Detaches (next answer)

/-- Who hands nothing over has nothing to detach from. -/
theorem Only.detaches {p : Program α} (h : p.Only fun effect ↦ effect.tasks = []) :
    p.Detaches := by
  induction p with
  | done value => trivial
  | act effect next ih =>
    refine fun answer ↦ ⟨fun task hmem ↦ ?_, ih answer (h.2 answer)⟩
    rw [h.1] at hmem
    cases hmem

/-- **One program after another**, where the second looks at no store that the first has handed a
task over for. -/
theorem Detaches.bind {p : Program α} {f : α → Program β} (hp : p.Detaches)
    (hafter : p.Only fun effect ↦
      ∀ task ∈ effect.tasks, ∀ value, (f value).Only (Effect.Avoids task.onLicenses))
    (hf : ∀ value, (f value).Detaches) : (p.bind f).Detaches := by
  induction p with
  | done value => exact hf value
  | act effect next ih =>
    refine fun answer ↦ ⟨fun task hmem ↦ ?_, ih answer (hp answer).2 (hafter.2 answer)⟩
    exact ((hp answer).1 task hmem).bind (hafter.1 task hmem)

/-- What hands nothing over may come first. -/
theorem Only.detaches_bind {p : Program α} {f : α → Program β}
    (hp : p.Only fun effect ↦ effect.tasks = []) (hf : ∀ value, (f value).Detaches) :
    (p.bind f).Detaches := by
  refine hp.detaches.bind (hp.mono fun effect htasks task hmem ↦ ?_) hf
  rw [htasks] at hmem
  cases hmem

theorem only_of_forall {kind : Effect → Prop} (h : ∀ effect, kind effect) (p : Program α) :
    p.Only kind := by
  induction p with
  | done value => trivial
  | act effect next ih => exact ⟨h effect, ih⟩

/-- What stays within the program may come last. -/
theorem Detaches.bind_local {p : Program α} {f : α → Program β} (hp : p.Detaches)
    (hf : ∀ value, (f value).Only Effect.Local) : (p.bind f).Detaches := by
  refine hp.bind (only_of_forall (fun effect task _ value ↦ ?_) p) fun value ↦ ?_
  · exact (hf value).mono fun _ hlocal ↦ hlocal.avoids _
  · exact ((hf value).mono fun _ hlocal ↦ hlocal.calm.tasks_eq).detaches

theorem Only.settle {kind : Effect → Prop} {p : Program α} (h : p.Only kind) :
    p.settle.2.Only kind := by
  induction p with
  | done value => trivial
  | act effect next ih =>
    cases effect with
    | submit | count | log => exact ih () (h.2 ())
    | store | clock | freshId | drawKey => exact h

/-- Settling hands over nothing that the rest still looks at. -/
theorem Detaches.settle {p : Program α} (h : p.Detaches) :
    (∀ task ∈ p.settle.1, p.settle.2.Only (Effect.Avoids task.onLicenses)) ∧
      p.settle.2.Detaches := by
  induction p with
  | done value => exact ⟨List.forall_mem_nil _, trivial⟩
  | act effect next ih =>
    cases effect with
    | submit task =>
      obtain ⟨htasks, hrest⟩ := ih () (h ()).2
      refine ⟨List.forall_mem_cons.2 ⟨?_, htasks⟩, hrest⟩
      exact ((h ()).1 task (List.mem_singleton_self task)).settle
    | count | log => exact ih () (h ()).2
    | store | clock | freshId | drawKey => exact ⟨List.forall_mem_nil _, h⟩

end Program

/-! ### Strands -/

namespace Strand

variable {α : Type} {x y : Shared} {strand : Strand α}

/-- In two runs the strand is the same, and so is all that it still looks at: what is left of it
looks at no store that one of its tasks is about, nor at one on which the two runs differ. -/
structure Detached (x y : Shared) (strand : Strand α) : Prop where
  now : x.now = y.now
  agree : ∀ side, x.stores.AgreeOn side y.stores ∨ strand.rest.Only (Effect.Avoids side)
  tasks : ∀ task ∈ strand.tasks, strand.rest.Only (Effect.Avoids task.onLicenses)
  rest : strand.rest.Detaches

/-- A program that detaches itself, as it starts. -/
theorem detached_ofProgram {p : Program α} (h : p.Detaches) (x : Shared) :
    Detached x x (.ofProgram p) :=
  ⟨rfl, fun _ ↦ .inl (.refl _ _), h.settle.1, h.settle.2⟩

/-- **A detached strand goes on alike** in both runs. -/
theorem Detached.proceed (h : Detached x y strand) (chance : Chance) :
    (strand.proceed x chance).1 = (strand.proceed y chance).1 ∧
      Detached (strand.proceed x chance).2 (strand.proceed y chance).2
        (strand.proceed x chance).1 := by
  obtain ⟨hnow, hagree, htasks, hrest⟩ := h
  rcases strand with ⟨value | ⟨effect, next⟩, tasks⟩
  · exact ⟨rfl, hnow, hagree, htasks, hrest⟩
  · have hasked : ∀ side, ¬ effect.Avoids side → x.stores.AgreeOn side y.stores :=
      fun side hasks ↦ (hagree side).resolve_right fun honly ↦ hasks honly.1
    obtain ⟨hanswer, hafter⟩ := Shared.perform_agree chance hnow hasked
    obtain ⟨hnew, hdetaches⟩ := (hrest (x.perform chance effect).1).2.settle
    refine ⟨?_, ?_, fun side ↦ ?_, ?_, hdetaches⟩
    · simp only [Strand.proceed, hanswer]
    · exact (Shared.perform_now effect).trans (hnow.trans (Shared.perform_now effect).symm)
    · exact (hagree side).imp (hafter side) fun honly ↦ (honly.2 _).settle
    · refine List.forall_mem_append.2 ⟨fun task hmem ↦ ((htasks task hmem).2 _).settle, ?_⟩
      split
      · exact hnew
      · exact List.forall_mem_nil _

/-- **A detached strand does not notice** how its tasks fare. -/
theorem Detached.work (h : Detached x y strand) (name : String) (chance chance' : Chance) :
    (strand.work x name chance).1 = (strand.work y name chance').1 ∧
      Detached (strand.work x name chance).2 (strand.work y name chance').2
        (strand.work x name chance).1 := by
  unfold Strand.work
  rcases hpick : Task.pick? name strand.tasks with - | ⟨task, tasks⟩
  · exact ⟨rfl, h⟩
  · obtain ⟨hmem, hothers⟩ := Task.mem_of_pick? hpick
    have hother : task.onLicenses ≠ !task.onLicenses := by simp
    have hclock : (x.worked chance task).now = (y.worked chance' task).now :=
      (x.worked_spares chance hother).1.trans
        (h.now.trans (y.worked_spares chance' hother).1.symm)
    refine ⟨rfl, hclock, fun side ↦ ?_,
      fun other hother ↦ h.tasks other (hothers other hother), h.rest⟩
    by_cases hside : task.onLicenses = side
    · exact .inr (hside ▸ h.tasks task hmem)
    · refine (h.agree side).imp_left fun hagree ↦ ?_
      refine (x.worked_spares chance hside).2.trans (hagree.trans ?_)
      exact (y.worked_spares chance' hside).2.symm

end Strand

end Licensing
