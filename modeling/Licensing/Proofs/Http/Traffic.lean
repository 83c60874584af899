import Mathlib.Data.List.Forall2
import Licensing.Http.Serving
import Licensing.Proofs.System.Strands

/-!
# Requests at the same time

Requests come in, and each is answered by a strand of its own. A script says what happens, move by
move: time is set, a request is asked, a strand goes on by one effect, a strand's task is done. It
leaves nothing open, so it makes one run of every service and every start, and two runs can be
compared move by move (`Traffic.rel_after`).

Since a script may let the strands and the tasks go on in any order and stop at any moment, whatever
holds of all scripts holds however requests and tasks interleave, and whatever is lost.
-/

namespace Licensing.Http

/-- What requests at the same time share, and the strand of each, in the order in which they came.
-/
structure Traffic extends Shared where
  strands : List (Strand Response)

/-- A single move. -/
inductive Move
  | wait (now : Instant)
  | ask (request : Request)
  | proceed (strand : Nat) (chance : Chance)
  | work (strand : Nat) (task : String) (chance : Chance)

namespace Traffic

/-- Lets one strand, if it is there, do something to itself and to what is shared. -/
def turn (t : Traffic) (k : Nat) (f : Strand Response → Strand Response × Shared) : Traffic :=
  match t.strands[k]? with
  | some strand => ⟨(f strand).2, t.strands.set k (f strand).1⟩
  | none => t

/-- The traffic after a move. -/
def step (service : Service) (t : Traffic) : Move → Traffic
  | .wait now => { t with now }
  | .ask request => { t with strands := t.strands ++ [.ofProgram (service.serve request)] }
  | .proceed k chance => t.turn k (Strand.proceed t.toShared chance)
  | .work k name chance => t.turn k (Strand.work t.toShared name chance)

/-- The traffic after a script. -/
def after (service : Service) (script : List Move) (t : Traffic) : Traffic :=
  script.foldl (step service) t

/-- The responses so far, in the order of the requests. -/
def answers (t : Traffic) : List (Option Response) := t.strands.map (·.rest.value?)

/-! ### Two runs side by side -/

/-- What is shared is the same in some sense, and strand by strand the programs are twins in
another. -/
structure Akin (same : Shared → Shared → Prop) (twin : Strand Response → Strand Response → Prop)
    (t u : Traffic) : Prop where
  shared : same t.toShared u.toShared
  strands : List.Forall₂ twin t.strands u.strands

variable {service : Service} {same : Shared → Shared → Prop}
  {twin : Strand Response → Strand Response → Prop} {t u : Traffic}

/-- What a pair of moves preserves, a pair of scripts does. -/
theorem rel_after {rel : Traffic → Traffic → Prop} {akin : Move → Move → Prop}
    (hstep : ∀ {t u move move'}, rel t u → akin move move' →
      rel (t.step service move) (u.step service move'))
    {script script' : List Move} (hscripts : List.Forall₂ akin script script') (h : rel t u) :
    rel (t.after service script) (u.after service script') := by
  induction hscripts generalizing t u with
  | nil => exact h
  | cons hmoves _ ih => exact ih (hstep h hmoves)

/-- A new strand on either side. -/
theorem Akin.ask (h : t.Akin same twin u) {request : Request}
    (hnew : twin (.ofProgram (service.serve request)) (.ofProgram (service.serve request))) :
    (t.step service (.ask request)).Akin same twin (u.step service (.ask request)) where
  shared := h.shared
  strands := List.rel_append h.strands (.cons hnew .nil)

private theorem forall₂_set {α β : Type} {rel : α → β → Prop} {as : List α} {bs : List β}
    (h : List.Forall₂ rel as bs) (k : Nat) {a : α} {b : β} (hab : rel a b) :
    List.Forall₂ rel (as.set k a) (bs.set k b) := by
  induction h generalizing k with
  | nil => exact .nil
  | cons hhead htail ih =>
    cases k with
    | zero => exact .cons hab htail
    | succ k => exact .cons hhead (ih k)

private theorem forall₂_getElem? {α β : Type} {rel : α → β → Prop} {as : List α} {bs : List β}
    (h : List.Forall₂ rel as bs) (k : Nat) :
    as[k]? = none ∧ bs[k]? = none ∨ ∃ a b, as[k]? = some a ∧ bs[k]? = some b ∧ rel a b := by
  induction h generalizing k with
  | nil => exact .inl ⟨rfl, rfl⟩
  | cons hhead _ ih =>
    cases k with
    | zero => exact .inr ⟨_, _, rfl, rfl, hhead⟩
    | succ k => exact ih k

/-- **The turn of one strand**, on either side. -/
theorem Akin.turn (h : t.Akin same twin u) (k : Nat)
    {f g : Strand Response → Strand Response × Shared}
    (hturn : ∀ a b, twin a b → twin (f a).1 (g b).1 ∧ same (f a).2 (g b).2) :
    (t.turn k f).Akin same twin (u.turn k g) := by
  rcases forall₂_getElem? h.strands k with ⟨ht, hu⟩ | ⟨a, b, ht, hu, hab⟩
  · simpa only [Traffic.turn, ht, hu] using h
  · obtain ⟨htwin, hsame⟩ := hturn a b hab
    simp only [Traffic.turn, ht, hu]
    exact ⟨hsame, forall₂_set h.strands k htwin⟩

/-- Strands that have come equally far have given the same responses. -/
theorem Akin.answers_eq (h : t.Akin same twin u)
    (hvalue : ∀ a b, twin a b → a.rest.value? = b.rest.value?) : t.answers = u.answers := by
  have hanswers : List.Forall₂ (· = ·) t.answers u.answers :=
    List.rel_map (fun {a b} hab ↦ hvalue a b hab) h.strands
  rwa [List.forall₂_eq_eq_eq] at hanswers

end Traffic

namespace Service

/-- The responses to all requests of a script, as far as there are any. -/
def answers (service : Service) (script : List Move) (x : Shared) : List (Option Response) :=
  (Traffic.after service script ⟨x, []⟩).answers

end Service

end Licensing.Http
