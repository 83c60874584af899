import Licensing.Proofs.System.Contract
import Licensing.Proofs.System.Strands

/-!
# Programs that go alike

Two programs are twins (`Program.Twins`) if they have the same effects as long as they get answers
that are alike, and come to values that are related. One may hand a task over that the other does
not; such tasks stand aside (`Likeness.Aside`) and go by a name of their own. What is alike is a
matter of the `Likeness`, and that two states of what is shared answer alike, and go on to do so, is
a matter of the relation between them (`Likeness.Keeps`).

The relation is between programs and composes as they do (`Twins.bind`). For strands that have grown
out of twins it says that they stay in step (`Strand.Twins.proceed`), also when their tasks are done
(`Strand.Twins.work`).

The last rests on tasks being told apart by name. Of any name but the one that stands aside either
both strands have a task or neither has (`Task.Matched.pick_both`), and of that name whatever there
is stands aside (`Task.Matched.pick_left`), so to do it on one side changes nothing that is alike.
-/

namespace Licensing

/-- How far twins may differ: the effects that they have in common, the answers to those that count
as alike, and the tasks that one of them may hand over on its own. -/
structure Likeness where
  Common : Effect → Prop
  Alike : (effect : Effect) → effect.Answer → effect.Answer → Prop
  Aside : Task → Prop
  asideName : String
  /-- What is not answered is answered alike. -/
  alike_silent : ∀ effect : Effect, effect.isSilent = true → ∀ answer, Alike effect answer answer
  name_of_aside : ∀ {task}, Aside task → task.name = asideName
  name_of_common : ∀ {task}, Common (.submit task) → task.name ≠ asideName

variable {α β γ δ : Type} {L : Likeness}

/-! ### Programs -/

namespace Program

/-- The programs have the same effects upon answers that are alike, up to tasks that one of them
hands over on its own, and their values are related. -/
inductive Twins (L : Likeness) (rel : α → β → Prop) : Program α → Program β → Prop
  | done {value : α} {value' : β} (h : rel value value') : Twins L rel (.done value) (.done value')
  | act {effect : Effect} {next : effect.Answer → Program α} {next' : effect.Answer → Program β}
      (hcommon : L.Common effect)
      (h : ∀ answer answer', L.Alike effect answer answer' →
        Twins L rel (next answer) (next' answer')) :
      Twins L rel (.act effect next) (.act effect next')
  | left {task : Task} {next : Unit → Program α} {q : Program β} (htask : L.Aside task)
      (h : Twins L rel (next ()) q) : Twins L rel (.act (.submit task) next) q
  | right {task : Task} {p : Program α} {next : Unit → Program β} (htask : L.Aside task)
      (h : Twins L rel p (next ())) : Twins L rel p (.act (.submit task) next)

variable {rel : α → β → Prop} {rel' : γ → δ → Prop}

theorem Twins.mono {rel₁ rel₂ : α → β → Prop} {p : Program α} {q : Program β}
    (h : p.Twins L rel₁ q) (hrel : ∀ value value', rel₁ value value' → rel₂ value value') :
    p.Twins L rel₂ q := by
  induction h with
  | done hvalue => exact .done (hrel _ _ hvalue)
  | act hcommon _ ih => exact .act hcommon ih
  | left htask _ ih => exact .left htask ih
  | right htask _ ih => exact .right htask ih

/-- **One program after another.** -/
theorem Twins.bind {p : Program α} {q : Program β} {f : α → Program γ} {g : β → Program δ}
    (h : p.Twins L rel q) (hfg : ∀ value value', rel value value' →
      (f value).Twins L rel' (g value')) : (p.bind f).Twins L rel' (q.bind g) := by
  induction h with
  | done hvalue => exact hfg _ _ hvalue
  | act hcommon _ ih => exact .act hcommon ih
  | left htask _ ih => exact .left htask ih
  | right htask _ ih => exact .right htask ih

/-- A program is its own twin if it has common effects only, and answers to them that are alike are
the same. -/
theorem Twins.of_only {p : Program α} (h : p.Only fun effect ↦
    L.Common effect ∧ ∀ answer answer', L.Alike effect answer answer' → answer = answer') :
    p.Twins L (· = ·) p := by
  induction p with
  | done value => exact .done rfl
  | act effect next ih =>
    refine .act h.1.1 fun answer answer' halike ↦ ?_
    cases h.1.2 answer answer' halike
    exact ih answer (h.2 answer)

/-- Twins that have settled: both have ended, or both have the same effect next. -/
inductive InStep (L : Likeness) (rel : α → β → Prop) : Program α → Program β → Prop
  | done {value : α} {value' : β} (h : rel value value') : InStep L rel (.done value) (.done value')
  | act {effect : Effect} {next : effect.Answer → Program α} {next' : effect.Answer → Program β}
      (hcommon : L.Common effect)
      (h : ∀ answer answer', L.Alike effect answer answer' →
        (next answer).Twins L rel (next' answer')) :
      InStep L rel (.act effect next) (.act effect next')

end Program

/-! ### Tasks -/

/-- The tasks are the same, up to those that stand aside. -/
inductive Task.Matched (L : Likeness) : List Task → List Task → Prop
  | nil : Matched L [] []
  | both {task : Task} {s t : List Task} (hname : task.name ≠ L.asideName) (h : Matched L s t) :
      Matched L (task :: s) (task :: t)
  | left {task : Task} {s t : List Task} (htask : L.Aside task) (h : Matched L s t) :
      Matched L (task :: s) t
  | right {task : Task} {s t : List Task} (htask : L.Aside task) (h : Matched L s t) :
      Matched L s (task :: t)

namespace Task.Matched

variable {s t s' t' : List Task} {name : String}

theorem symm (h : Matched L s t) : Matched L t s := by
  induction h with
  | nil => exact .nil
  | both hname _ ih => exact .both hname ih
  | left htask _ ih => exact .right htask ih
  | right htask _ ih => exact .left htask ih

theorem append (h : Matched L s t) (h' : Matched L s' t') : Matched L (s ++ s') (t ++ t') := by
  induction h with
  | nil => exact h'
  | both hname _ ih => exact .both hname ih
  | left htask _ ih => exact .left htask ih
  | right htask _ ih => exact .right htask ih

/-- Of another name there is the same task on both sides, or none on either. -/
theorem pick_both (h : Matched L s t) (hname : name ≠ L.asideName) :
    pick? name s = none ∧ pick? name t = none ∨ ∃ task s' t',
      pick? name s = some (task, s') ∧ pick? name t = some (task, t') ∧ Matched L s' t' := by
  have hskip : ∀ {task : Task} {tasks : List Task}, L.Aside task →
      pick? name (task :: tasks) =
        (pick? name tasks).map fun picked ↦ (picked.1, task :: picked.2) :=
    fun htask ↦ if_neg fun heq ↦ hname (heq.symm.trans (L.name_of_aside htask))
  induction h with
  | nil => exact .inl ⟨rfl, rfl⟩
  | @both task s t hother h ih =>
    unfold pick?
    by_cases heq : task.name = name
    · rw [if_pos heq, if_pos heq]
      exact .inr ⟨task, s, t, rfl, rfl, h⟩
    · rw [if_neg heq, if_neg heq]
      rcases ih with ⟨hs, ht⟩ | ⟨picked, s', t', hs, ht, hrest⟩
      · exact .inl ⟨by rw [hs]; rfl, by rw [ht]; rfl⟩
      · exact .inr ⟨picked, _, _, by rw [hs]; rfl, by rw [ht]; rfl, .both hother hrest⟩
  | left htask _ ih =>
    rw [hskip htask]
    rcases ih with ⟨hs, ht⟩ | ⟨picked, s', t', hs, ht, hrest⟩
    · exact .inl ⟨by rw [hs]; rfl, ht⟩
    · exact .inr ⟨picked, _, t', by rw [hs]; rfl, ht, .left htask hrest⟩
  | right htask _ ih =>
    rw [hskip htask]
    rcases ih with ⟨hs, ht⟩ | ⟨picked, s', t', hs, ht, hrest⟩
    · exact .inl ⟨hs, by rw [ht]; rfl⟩
    · exact .inr ⟨picked, s', _, hs, by rw [ht]; rfl, .right htask hrest⟩

/-- Of the name apart, whatever there is on one side stands aside. -/
theorem pick_left (h : Matched L s t) {task : Task}
    (hpick : pick? L.asideName s = some (task, s')) :
    L.Aside task ∧ Matched L s' t := by
  induction h generalizing s' with
  | nil => cases hpick
  | both hname _ ih =>
    unfold pick? at hpick
    rw [if_neg hname] at hpick
    obtain ⟨picked, hpicked, heq⟩ := Option.map_eq_some_iff.1 hpick
    cases heq
    obtain ⟨haside, hrest⟩ := ih hpicked
    exact ⟨haside, .both hname hrest⟩
  | left htask h _ =>
    unfold pick? at hpick
    rw [if_pos (L.name_of_aside htask)] at hpick
    cases hpick
    exact ⟨htask, h⟩
  | right htask _ ih =>
    obtain ⟨haside, hrest⟩ := ih hpick
    exact ⟨haside, .right htask hrest⟩

end Task.Matched

/-- **Twins settle in step**, and what they hand over is matched. -/
theorem Program.Twins.settle {rel : α → β → Prop} {p : Program α} {q : Program β}
    (h : p.Twins L rel q) :
    Task.Matched L p.settle.1 q.settle.1 ∧ InStep L rel p.settle.2 q.settle.2 := by
  induction h with
  | done hvalue => exact ⟨.nil, .done hvalue⟩
  | @act effect next next' hcommon h ih =>
    cases effect with
    | submit task =>
      obtain ⟨htasks, hrest⟩ := ih () () (L.alike_silent (.submit task) rfl ())
      exact ⟨.both (L.name_of_common hcommon) htasks, hrest⟩
    | count counter amount =>
      exact ih () () (L.alike_silent (.count counter amount) rfl ())
    | log entry => exact ih () () (L.alike_silent (.log entry) rfl ())
    | store | clock | freshId | drawKey => exact ⟨.nil, .act hcommon h⟩
  | left htask _ ih => exact ⟨.left htask ih.1, ih.2⟩
  | right htask _ ih => exact ⟨.right htask ih.1, ih.2⟩

/-! ### Strands -/

/-- The relation between what is shared on either side is kept by whatever twins do: common effects
are answered alike, the tasks of both are done on both sides, and those that stand aside on
either. -/
structure Likeness.Keeps (L : Likeness) (same : Shared → Shared → Prop) : Prop where
  symm : ∀ {x y}, same x y → same y x
  perform : ∀ {x y effect}, same x y → L.Common effect → ∀ chance,
    L.Alike effect (x.perform chance effect).1 (y.perform chance effect).1 ∧
      same (x.perform chance effect).2 (y.perform chance effect).2
  both : ∀ {x y task}, same x y → task.name ≠ L.asideName → ∀ chance,
    same (x.worked chance task) (y.worked chance task)
  aside : ∀ {x y task}, same x y → L.Aside task → ∀ chance, same (x.worked chance task) y

namespace Strand

/-- The strands are in step, and their tasks are matched. -/
structure Twins (L : Likeness) (a b : Strand α) : Prop where
  rest : a.rest.InStep L (· = ·) b.rest
  tasks : Task.Matched L a.tasks b.tasks

variable {same : Shared → Shared → Prop} {x y : Shared} {a b : Strand α}

theorem Twins.ofProgram {p : Program α} (h : p.Twins L (· = ·) p) :
    Twins L (ofProgram p) (ofProgram p) := ⟨h.settle.2, h.settle.1⟩

/-- Twins have come equally far. -/
theorem Twins.value?_eq (h : Twins L a b) : a.rest.value? = b.rest.value? := by
  obtain ⟨hrest, -⟩ := h
  rcases a with ⟨rest, tasks⟩
  rcases b with ⟨rest', tasks'⟩
  simp only at hrest ⊢
  cases hrest with
  | done hvalue => exact congrArg some hvalue
  | act => rfl

/-- **Twins stay in step.** -/
theorem Twins.proceed (hkeeps : L.Keeps same) (h : Twins L a b) (hsame : same x y)
    (chance : Chance) :
    Twins L (a.proceed x chance).1 (b.proceed y chance).1 ∧
      same (a.proceed x chance).2 (b.proceed y chance).2 := by
  obtain ⟨hrest, htasks⟩ := h
  rcases a with ⟨rest, tasks⟩
  rcases b with ⟨rest', tasks'⟩
  simp only at hrest htasks
  cases hrest with
  | done hvalue => exact ⟨⟨.done hvalue, htasks⟩, hsame⟩
  | act hcommon hnext =>
    obtain ⟨halike, hafter⟩ := hkeeps.perform hsame hcommon chance
    obtain ⟨hnew, hstep⟩ := (hnext _ _ halike).settle
    refine ⟨⟨hstep, htasks.append ?_⟩, hafter⟩
    cases chance.room with
    | true => exact hnew
    | false => exact .nil

private theorem work_aside (hkeeps : L.Keeps same) {tasks : List Task}
    (htasks : Task.Matched L a.tasks tasks) (hsame : same x y) (chance : Chance) :
    (a.work x L.asideName chance).1.rest = a.rest ∧
      Task.Matched L (a.work x L.asideName chance).1.tasks tasks ∧
      same (a.work x L.asideName chance).2 y := by
  unfold work
  rcases hpick : Task.pick? L.asideName a.tasks with - | ⟨task, rest⟩
  · exact ⟨rfl, htasks, hsame⟩
  · obtain ⟨haside, hrest⟩ := htasks.pick_left hpick
    exact ⟨rfl, hrest, hkeeps.aside hsame haside chance⟩

/-- **Twins do not notice** that one of them has a task done that the other has not. -/
theorem Twins.work (hkeeps : L.Keeps same) (h : Twins L a b) (hsame : same x y) (name : String)
    (chance : Chance) :
    Twins L (a.work x name chance).1 (b.work y name chance).1 ∧
      same (a.work x name chance).2 (b.work y name chance).2 := by
  by_cases hname : name = L.asideName
  · subst hname
    -- First the one side, then the other.
    obtain ⟨hrest, htasks, hafter⟩ := work_aside hkeeps h.tasks hsame chance
    obtain ⟨hrest', htasks', hafter'⟩ :=
      work_aside hkeeps htasks.symm (hkeeps.symm hafter) chance
    refine ⟨⟨?_, htasks'.symm⟩, hkeeps.symm hafter'⟩
    rw [hrest, hrest']
    exact h.rest
  · unfold Strand.work
    rcases h.tasks.pick_both hname with ⟨ha, hb⟩ | ⟨task, s, t, ha, hb, htasks⟩
    · rw [ha, hb]
      exact ⟨h, hsame⟩
    · rw [ha, hb]
      have hother : task.name ≠ L.asideName := by rwa [Task.name_of_pick? ha]
      exact ⟨⟨h.rest, htasks⟩, hkeeps.both hsame hother chance⟩

end Strand

end Licensing
