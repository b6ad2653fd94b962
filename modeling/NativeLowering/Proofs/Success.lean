import Mathlib
import NativeLowering.Error

/-!
# Computations that succeed

A computation that can fail succeeds as a whole exactly if each of its steps does. These
equivalences take such a computation apart, with a state and without.
-/

set_option autoImplicit false

namespace NativeLowering
namespace Lowered

variable {α β σ : Type}

theorem bind_eq_ok {first : Lowered α} {next : α → Lowered β} {result : β} :
    (first >>= next) = .ok result ↔ ∃ value, first = .ok value ∧ next value = .ok result := by
  cases first with
  | error e =>
    constructor
    · intro h
      cases h
    · rintro ⟨_, h, _⟩
      cases h
  | ok value =>
    constructor
    · intro h
      exact ⟨value, rfl, h⟩
    · rintro ⟨_, h, h'⟩
      cases h
      exact h'

theorem pure_eq_ok {value result : α} : (pure value : Lowered α) = .ok result ↔ result = value := by
  constructor
  · intro h
    cases h
    rfl
  · rintro rfl
    rfl

theorem map_eq_ok {first : Lowered α} {change : α → β} {result : β} :
    first.map change = .ok result ↔ ∃ value, first = .ok value ∧ result = change value := by
  cases first with
  | error e =>
    constructor
    · intro h
      cases h
    · rintro ⟨_, h, _⟩
      cases h
  | ok value =>
    constructor
    · intro h
      cases h
      exact ⟨value, rfl, rfl⟩
    · rintro ⟨_, h, rfl⟩
      cases h
      rfl

theorem map_then {γ : Type} (first : Lowered α) (change : α → β) (next : β → Lowered γ) :
    (first.map change >>= next) = first >>= fun value => next (change value) := by
  cases first <;> rfl

theorem map_eq_bind (first : Lowered α) (change : α → β) :
    first.map change = first >>= fun value => pure (change value) := by
  cases first <;> rfl

theorem toOption_eq_some {computed : Lowered α} {result : α} :
    computed.toOption = some result ↔ computed = .ok result := by
  cases computed with
  | error e =>
    constructor
    · intro h
      cases h
    · intro h
      cases h
  | ok value =>
    constructor
    · intro h
      cases h
      rfl
    · intro h
      cases h
      rfl

/-! ## With a state -/

variable {state after : σ}

theorem run_bind {first : StateT σ Lowered α} {next : α → StateT σ Lowered β} {result : β} :
    (first >>= next).run state = .ok (result, after) ↔
      ∃ value between, first.run state = .ok (value, between) ∧
        (next value).run between = .ok (result, after) := by
  rw [StateT.run_bind, bind_eq_ok]
  constructor
  · rintro ⟨⟨value, between⟩, h, h'⟩
    exact ⟨value, between, h, h'⟩
  · rintro ⟨value, between, h, h'⟩
    exact ⟨(value, between), h, h'⟩

theorem run_pure {value result : α} :
    (pure value : StateT σ Lowered α).run state = .ok (result, after) ↔
      result = value ∧ after = state := by
  constructor
  · intro h
    cases h
    exact ⟨rfl, rfl⟩
  · rintro ⟨rfl, rfl⟩
    rfl

theorem run_lift {computed : Lowered α} {result : α} :
    (liftM computed : StateT σ Lowered α).run state = .ok (result, after) ↔
      computed = .ok result ∧ after = state := by
  cases computed with
  | error e =>
    constructor
    · intro h
      cases h
    · rintro ⟨h, _⟩
      cases h
  | ok value =>
    constructor
    · intro h
      cases h
      exact ⟨rfl, rfl⟩
    · rintro ⟨h, rfl⟩
      cases h
      rfl

theorem run_get {result : σ} :
    (get : StateT σ Lowered σ).run state = .ok (result, after) ↔
      result = state ∧ after = state := by
  constructor
  · intro h
    cases h
    exact ⟨rfl, rfl⟩
  · rintro ⟨rfl, rfl⟩
    rfl

theorem run_set {written : σ} {result : PUnit} :
    (set written : StateT σ Lowered PUnit).run state = .ok (result, after) ↔ after = written := by
  constructor
  · intro h
    cases h
    rfl
  · rintro rfl
    rfl

theorem run_modify {change : σ → σ} {result : PUnit} :
    (modify change : StateT σ Lowered PUnit).run state = .ok (result, after) ↔
      after = change state := by
  constructor
  · intro h
    cases h
    rfl
  · rintro rfl
    rfl

end Lowered
end NativeLowering
