import Licensing.Proofs.System.Contract

/-!
# What follows upon a turn

A single turn can settle how a program ends: a write that succeeds, a call that fails. A program
does so (`Program.Once`) if, after any turn of the sort, only effects of some kind follow and then a
good value (`Program.Concludes`). It is said of every answer that the program can get, so it is
proved program by program, without a store: `Once.bind` puts programs together.
-/

namespace Licensing

namespace Program

variable {α β : Type} {kind : Effect → Prop} {good : α → Prop} {good' : β → Prop}
  {trigger : Turn → Prop}

/-- All that is left is of a kind, and the end is good. -/
def Concludes (kind : Effect → Prop) (good : α → Prop) : Program α → Prop
  | .done value => good value
  | .act effect next => kind effect ∧ ∀ answer, Concludes kind good (next answer)

/-- After a turn of the sort, the program concludes. -/
def Once (trigger : Turn → Prop) (kind : Effect → Prop) (good : α → Prop) : Program α → Prop
  | .done _ => True
  | .act effect next => ∀ answer, Once trigger kind good (next answer) ∧
      (trigger ⟨effect, answer⟩ → (next answer).Concludes kind good)

theorem Concludes.bind {p : Program α} {f : α → Program β} (hp : p.Concludes kind good)
    (hf : ∀ value, good value → (f value).Concludes kind good') :
    (p.bind f).Concludes kind good' := by
  induction p with
  | done value => exact hf value hp
  | act effect next ih => exact ⟨hp.1, fun answer ↦ ih answer (hp.2 answer)⟩

theorem Only.concludes {p : Program α} (h : p.Only kind) :
    p.Concludes kind fun _ ↦ True := by
  induction p with
  | done value => trivial
  | act effect next ih => exact ⟨h.1, fun answer ↦ ih answer (h.2 answer)⟩

/-- What concludes only has effects of the kind. -/
theorem Concludes.only {p : Program α} (h : p.Concludes kind good) : p.Only kind := by
  induction p with
  | done value => trivial
  | act effect next ih => exact ⟨h.1, fun answer ↦ ih answer (h.2 answer)⟩

/-- Where there is no turn of the sort, nothing has to follow. -/
theorem Only.once {p : Program α} (h : p.Only kind)
    (hnever : ∀ effect answer, kind effect → ¬ trigger ⟨effect, answer⟩)
    (kind' : Effect → Prop) (good : α → Prop) : p.Once trigger kind' good := by
  induction p with
  | done value => trivial
  | act effect next ih =>
    exact fun answer ↦ ⟨ih answer (h.2 answer), fun hturn ↦ (hnever _ _ h.1 hturn).elim⟩

/-- **One program after another**, where a good value of the first leads to the conclusion of the
whole. -/
theorem Once.bind {p : Program α} {f : α → Program β} (hp : p.Once trigger kind good)
    (hgood : ∀ value, good value → (f value).Concludes kind good')
    (hf : ∀ value, (f value).Once trigger kind good') : (p.bind f).Once trigger kind good' := by
  induction p with
  | done value => exact hf value
  | act effect next ih =>
    exact fun answer ↦ ⟨ih answer (hp answer).1, fun hturn ↦ ((hp answer).2 hturn).bind hgood⟩

/-! ### Programs that can fail -/

/-- The result is an error of the sort. -/
def Fails {ε : Type} (bad : ε → Prop) : Except ε α → Prop
  | .error error => bad error
  | .ok _ => False

/-- Whatever makes one step fail makes the whole fail. -/
theorem Once.except_bind {ε : Type} {bad : ε → Prop} {op : ExceptT ε Program α}
    {f : α → ExceptT ε Program β} (hop : Once trigger kind (Fails bad) op.run)
    (hf : ∀ value, Once trigger kind (Fails bad) (f value).run) :
    Once trigger kind (Fails bad) (op >>= f).run := by
  refine Once.bind hop ?_ ?_
  · rintro (error | value) hbad
    · exact hbad
    · exact hbad.elim
  · rintro (error | value)
    · trivial
    · exact hf value

/-- What cuts the program short, if anything does, is of the sort. -/
def Cuts {ε : Type} (sort : ε → Prop) : Except ε α → Prop
  | .ok _ => True
  | .error error => sort error

/-- What cuts the first program short has to be good for the whole, and what it hands on to does the
rest. -/
theorem Concludes.except_bind {ε : Type} {sort : ε → Prop} {good : Except ε β → Prop}
    {op : ExceptT ε Program α} {f : α → ExceptT ε Program β}
    (hop : Concludes kind (Cuts sort) op.run) (hgood : ∀ error, sort error → good (.error error))
    (hf : ∀ value, Concludes kind good (f value).run) : Concludes kind good (op >>= f).run := by
  refine Concludes.bind hop ?_
  rintro (error | value) h
  · exact hgood error h
  · exact hf value

end Program

end Licensing
