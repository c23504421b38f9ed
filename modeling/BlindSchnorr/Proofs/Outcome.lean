import Mathlib
import BlindSchnorr.Error

/-!
# Taking a computation apart

A computation that may fail succeeds only if each of its steps does, and fails as the first
step that fails. A width check succeeds only on an accepted width.
-/
namespace BlindSchnorr

variable {ε α β : Type}

theorem bind_eq_ok_iff {x : Except ε α} {f : α → Except ε β} {b : β} :
    (x >>= f) = .ok b ↔ ∃ a, x = .ok a ∧ f a = .ok b := by
  cases x with
  | error e => exact ⟨nofun, nofun⟩
  | ok a => exact ⟨fun h => ⟨a, rfl, h⟩, fun ⟨_, ha, h⟩ => by cases ha; exact h⟩

theorem bind_eq_error_iff {x : Except ε α} {f : α → Except ε β} {e : ε} :
    (x >>= f) = .error e ↔ x = .error e ∨ ∃ a, x = .ok a ∧ f a = .error e := by
  cases x with
  | error e' =>
    constructor
    · intro h
      cases h
      exact .inl rfl
    · rintro (h | ⟨_, ha, _⟩)
      · cases h
        rfl
      · cases ha
  | ok a =>
    constructor
    · intro h
      exact .inr ⟨a, rfl, h⟩
    · rintro (h | ⟨_, ha, h⟩)
      · cases h
      · cases ha
        exact h

theorem mapError_eq_ok_iff {ε' : Type} {x : Except ε α} {f : ε → ε'} {a : α} :
    x.mapError f = .ok a ↔ x = .ok a := by
  cases x <;> simp [Except.mapError]

theorem mapError_eq_error_iff {ε' : Type} {x : Except ε α} {f : ε → ε'} {e : ε'} :
    x.mapError f = .error e ↔ ∃ cause, x = .error cause ∧ f cause = e := by
  cases x <;> simp [Except.mapError]

theorem elim_eq_ok_iff {o : Option α} {e : ε} {a : α} :
    o.elim (Except.error e) Except.ok = .ok a ↔ o = some a := by
  cases o <;> simp

@[simp] theorem ok_bind (a : α) (f : α → Except ε β) : (Except.ok a >>= f) = f a := rfl

@[simp] theorem error_bind (e : ε) (f : α → Except ε β) : (Except.error e >>= f) = .error e := rfl

theorem ok_decide_eq_ok_iff {p : Prop} [Decidable p] {b : Bool} :
    (Except.ok (decide p) : Except ε Bool) = .ok b ↔ (b = true ↔ p) := by
  rw [Except.ok.injEq]
  by_cases hp : p <;> cases b <;> simp [hp]

theorem ok_false_eq_ok_iff {p : Prop} (hp : ¬p) {b : Bool} :
    (Except.ok false : Except ε Bool) = .ok b ↔ (b = true ↔ p) := by
  rw [Except.ok.injEq]
  cases b <;> simp [hp]

theorem expectWidth_eq_ok_iff {field : String} {expected : Widths} {actual : Nat} {u : Unit} :
    expectWidth field expected actual = .ok u ↔ expected.Accepts actual := by
  unfold expectWidth
  split_ifs with h <;> simp [h]

theorem expectWidth_eq_error_iff {field : String} {expected : Widths} {actual : Nat} {e : Error} :
    expectWidth field expected actual = .error e ↔
      ¬expected.Accepts actual ∧ e = .wrongLength field expected actual := by
  unfold expectWidth
  split_ifs with h <;> simp [h, eq_comm]

end BlindSchnorr
