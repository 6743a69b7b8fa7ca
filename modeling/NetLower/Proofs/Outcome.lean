/-
Taking outcomes apart.  An operation that has a result is a chain of operations that
have results; a loop that has a result kept, from member to member, whatever each of
its steps keeps.  The errors of a chain are those of its operations.
-/
import Mathlib.Data.List.Forall2
import NetLower.Outcome
import NetLower.Pass.Basic
import NetLower.Size

namespace NetLower

namespace Outcome

theorem bind_eq_ok {x : Outcome α} {f : α → Outcome β} {b : β} :
    (x >>= f) = .ok b ↔ ∃ a, x = .ok a ∧ f a = .ok b := by
  cases x <;> simp [bind, Except.bind]

/-- A check goes before what it guards. -/
theorem check_bind_eq_ok {x : Outcome Unit} {f : Unit → Outcome β} {b : β} :
    (x >>= f) = .ok b ↔ x = .ok () ∧ f () = .ok b := by
  cases x <;> simp [bind, Except.bind]

theorem pure_eq_ok {a b : α} : (pure a : Outcome α) = .ok b ↔ a = b := by
  simp [pure, Except.pure]

theorem isOk_iff {x : Outcome α} : x.isOk = true ↔ ∃ a, x = .ok a := by
  cases x <;> simp [Except.isOk, Except.toBool]

theorem mapM_eq_ok {f : α → Outcome β} : ∀ {as : List α} {bs : List β},
    as.mapM f = .ok bs ↔ List.Forall₂ (fun a b => f a = .ok b) as bs
  | [], bs => by
    simp only [List.mapM_nil, pure_eq_ok, List.forall₂_nil_left_iff]
    exact eq_comm
  | a :: as, bs => by
    simp only [List.mapM_cons, bind_eq_ok, pure_eq_ok, List.forall₂_cons_left_iff, mapM_eq_ok]
    constructor
    · rintro ⟨b, hb, rest, hrest, rfl⟩
      exact ⟨b, rest, hb, hrest, rfl⟩
    · rintro ⟨b, rest, hb, hrest, rfl⟩
      exact ⟨b, hb, rest, hrest, rfl⟩

/-- A loop keeps what its steps keep; the invariant may speak of the members still to come. -/
theorem foldlM_keeps {f : β → α → Outcome β} (I : List α → β → Prop)
    (step : ∀ a rest b b', I (a :: rest) b → f b a = .ok b' → I rest b') :
    ∀ {as : List α} {b b' : β}, I as b → as.foldlM f b = .ok b' → I [] b'
  | [], b, b', hb, h => by
    simp only [List.foldlM_nil, pure_eq_ok] at h
    exact h ▸ hb
  | a :: as, b, b', hb, h => by
    simp only [List.foldlM_cons, bind_eq_ok] at h
    obtain ⟨mid, hmid, h⟩ := h
    exact foldlM_keeps I step (step a as b mid hb hmid) h

/-! ## Operations that fail only in certain ways -/

/-- Any error of the operation is one of these. -/
def FailsOnly (E : Error → Prop) (x : Outcome α) : Prop := ∀ e, x = .error e → E e

section

variable {E : Error → Prop} {x : Outcome α} {f : α → Outcome β}

@[simp] theorem failsOnly_ok (a : α) : FailsOnly E (.ok a : Outcome α) := nofun

@[simp] theorem failsOnly_pure (a : α) : FailsOnly E (pure a : Outcome α) := nofun

@[simp] theorem failsOnly_error {e : Error} : FailsOnly E (.error e : Outcome α) ↔ E e := by
  simp [FailsOnly]

@[simp] theorem failsOnly_throw {e : Error} : FailsOnly E (throw e : Outcome α) ↔ E e := failsOnly_error

/-- What follows may rely on the result of what went before. -/
@[simp] theorem failsOnly_bind : FailsOnly E (x >>= f) ↔ FailsOnly E x ∧ ∀ a, x = .ok a → FailsOnly E (f a) := by
  cases x with
  | error e =>
    show FailsOnly E (.error e) ↔ _
    simp
  | ok a =>
    show FailsOnly E (f a) ↔ _
    simp

@[simp] theorem failsOnly_map {h : α → β} : FailsOnly E (h <$> x) ↔ FailsOnly E x := by
  cases x with
  | error e =>
    show FailsOnly E (.error e) ↔ _
    simp
  | ok a =>
    show FailsOnly E (.ok (h a)) ↔ _
    simp

@[simp] theorem failsOnly_ite {condition : Prop} [Decidable condition] {x y : Outcome α} :
    FailsOnly E (if condition then x else y) ↔ (condition → FailsOnly E x) ∧ (¬ condition → FailsOnly E y) := by
  split <;> simp_all

@[simp] theorem failsOnly_require {condition : Prop} [Decidable condition] {otherwise : Error} :
    FailsOnly E (require condition otherwise) ↔ (¬ condition → E otherwise) := by
  simp [require]

@[simp] theorem failsOnly_check : FailsOnly E (check x) ↔ FailsOnly E x := by
  cases x <;> simp [check, Except.map]

namespace FailsOnly

theorem of_eq_ok {a : α} (h : x = .ok a) : FailsOnly E x := by simp [h]

theorem pure (a : α) : FailsOnly E (pure a : Outcome α) := failsOnly_pure a

theorem bind (hx : FailsOnly E x) (hf : ∀ a, x = .ok a → FailsOnly E (f a)) : FailsOnly E (x >>= f) :=
  failsOnly_bind.2 ⟨hx, hf⟩

/-- What goes before is known to succeed. -/
theorem after {a : α} (hx : x = .ok a) (hf : FailsOnly E (f a)) : FailsOnly E (x >>= f) := by
  rw [hx]
  exact hf

theorem check (h : FailsOnly E x) : FailsOnly E (Outcome.check x) := failsOnly_check.2 h

theorem require {condition : Prop} [Decidable condition] {otherwise : Error} (h : condition) :
    FailsOnly E (Outcome.require condition otherwise) := of_eq_ok (require_eq_ok.2 h)

@[simp] theorem forEach {items : List α} {f : α → Outcome Unit} (h : ∀ a ∈ items, FailsOnly E (f a)) :
    FailsOnly E (Outcome.forEach items f) := by
  induction items with
  | nil => exact of_eq_ok rfl
  | cons a rest ih =>
    rw [Outcome.forEach]
    split
    · exact ih fun b hb => h b (by simp [hb])
    next e he => exact failsOnly_error.2 (h a (by simp) e he)

@[simp] theorem mapM {items : List α} (h : ∀ a ∈ items, FailsOnly E (f a)) : FailsOnly E (items.mapM f) := by
  induction items with
  | nil => simp
  | cons a rest ih =>
    have hrest := ih fun b hb => h b (by simp [hb])
    simp [h a (by simp), hrest]

/-- The invariant of a loop may speak of the members still to come. -/
theorem foldlM {f : β → α → Outcome β} (I : List α → β → Prop)
    (step : ∀ a rest b b', I (a :: rest) b → f b a = .ok b' → I rest b')
    (each : ∀ a rest b, I (a :: rest) b → FailsOnly E (f b a)) :
    ∀ {as : List α} {b : β}, I as b → FailsOnly E (as.foldlM f b)
  | [], b, _ => pure b
  | a :: as, b, hb => by
    rw [List.foldlM_cons]
    exact (each a as b hb).bind fun b' h => foldlM I step each (step a as b b' hb h)

/-- The same without an invariant. -/
@[simp] theorem foldlM_of_forall {f : β → α → Outcome β} {as : List α} {b : β}
    (h : ∀ b, ∀ a ∈ as, FailsOnly E (f b a)) : FailsOnly E (as.foldlM f b) :=
  foldlM (fun rest _ => ∀ a ∈ rest, a ∈ as) (fun _ _ _ _ hrest _ a ha => hrest a (by simp [ha]))
    (fun a _ b hrest => h b a (hrest a (by simp))) fun _ ha => ha

theorem mono {E' : Error → Prop} (h : FailsOnly E x) (hE : ∀ e, E e → E' e) : FailsOnly E' x :=
  fun e hx => hE e (h e hx)

end FailsOnly

/-- The operation cannot fail. -/
abbrev Succeeds (x : Outcome α) : Prop := FailsOnly (fun _ => False) x

theorem Succeeds.eq_ok (h : Succeeds x) : ∃ a, x = .ok a := by
  cases x with
  | ok a => exact ⟨a, rfl⟩
  | error e => exact (h e rfl).elim

theorem Succeeds.failsOnly (h : Succeeds x) : FailsOnly E x := h.mono fun _ hfalse => hfalse.elim

end

/-- Only a size beyond its word can stop the operation. -/
abbrev Runs (x : Outcome α) : Prop := FailsOnly (fun e => e = .fault .multiply ∨ e = .fault .add) x

namespace Runs

theorem mul (a b : Nat) : Runs (Size.mul a b) := by simp [Size.mul]

theorem add (a b : Nat) : Runs (Size.add a b) := by simp [Size.add]

theorem alignUp (a b : Nat) : Runs (Size.alignUp a b) := mul _ _

end Runs

end Outcome

open Outcome (FailsOnly)

namespace Pass

theorem sweep_keeps {visit : Graph → α → Outcome (Graph × Bool)} (I : List α → Graph → Prop)
    (step : ∀ a rest g g' here, I (a :: rest) g → visit g a = .ok (g', here) → I rest g')
    {places : List α} {g g' : Graph} {changed : Bool} (hg : I places g)
    (h : sweep places visit g = .ok (g', changed)) : I [] g' := by
  refine Outcome.foldlM_keeps (fun rest state => I rest state.1) ?_ hg h
  rintro a rest ⟨g, _⟩ ⟨g', _⟩ hg h
  simp only [Outcome.bind_eq_ok, Outcome.pure_eq_ok, Prod.mk.injEq] at h
  obtain ⟨⟨mid, here⟩, hvisit, rfl, _⟩ := h
  exact step a rest g mid here hg hvisit

theorem sweepWith_keeps {visit : σ × Graph → α → Outcome ((σ × Graph) × Bool)}
    (I : List α → σ × Graph → Prop)
    (step : ∀ a rest state state' here, I (a :: rest) state → visit state a = .ok (state', here) →
      I rest state')
    {places : List α} {state state' : σ × Graph} {changed : Bool} (hs : I places state)
    (h : sweepWith places visit state = .ok (state', changed)) : I [] state' := by
  refine Outcome.foldlM_keeps (fun rest state => I rest state.1) ?_ hs h
  rintro a rest ⟨state, _⟩ ⟨state', _⟩ hs h
  simp only [Outcome.bind_eq_ok, Outcome.pure_eq_ok, Prod.mk.injEq] at h
  obtain ⟨⟨mid, here⟩, hvisit, rfl, _⟩ := h
  exact step a rest state mid here hs hvisit

theorem failsOnly_sweep {E : Error → Prop} {visit : Graph → α → Outcome (Graph × Bool)} (I : List α → Graph → Prop)
    (step : ∀ a rest g g' here, I (a :: rest) g → visit g a = .ok (g', here) → I rest g')
    (each : ∀ a rest g, I (a :: rest) g → FailsOnly E (visit g a)) {places : List α} {g : Graph}
    (hg : I places g) : FailsOnly E (sweep places visit g) := by
  refine FailsOnly.foldlM (fun rest state => I rest state.1) ?_ ?_ hg
  · rintro a rest ⟨g, _⟩ ⟨g', _⟩ hg h
    simp only [Outcome.bind_eq_ok, Outcome.pure_eq_ok, Prod.mk.injEq] at h
    obtain ⟨⟨mid, here⟩, hvisit, rfl, _⟩ := h
    exact step a rest g mid here hg hvisit
  · intro a rest state hg
    exact (each a rest state.1 hg).bind fun _ _ => .pure _

theorem failsOnly_sweepWith {E : Error → Prop} {visit : σ × Graph → α → Outcome ((σ × Graph) × Bool)}
    (I : List α → σ × Graph → Prop)
    (step : ∀ a rest state state' here, I (a :: rest) state → visit state a = .ok (state', here) → I rest state')
    (each : ∀ a rest state, I (a :: rest) state → FailsOnly E (visit state a)) {places : List α}
    {state : σ × Graph} (hs : I places state) : FailsOnly E (sweepWith places visit state) := by
  refine FailsOnly.foldlM (fun rest state => I rest state.1) ?_ ?_ hs
  · rintro a rest ⟨state, _⟩ ⟨state', _⟩ hs h
    simp only [Outcome.bind_eq_ok, Outcome.pure_eq_ok, Prod.mk.injEq] at h
    obtain ⟨⟨mid, here⟩, hvisit, rfl, _⟩ := h
    exact step a rest state mid here hs hvisit
  · intro a rest state hs
    exact (each a rest state.1 hs).bind fun _ _ => .pure _

end Pass

end NetLower
