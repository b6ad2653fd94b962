import NativeLowering.Proofs.Success

/-!
# How computations end

`Ensures` says of a computation what its result meets, if it has one, and `Blames` which faults it
can fail with. Both are passed on by sequencing. `Ends` says both at once, for computations whose
later steps fail depending on what the earlier ones result in.
-/

set_option autoImplicit false

namespace NativeLowering.Lowered

variable {α β : Type}

/-! ## Results -/

section Results

variable {P : α → Prop} {Q : β → Prop}

/-- The result of the computation meets a condition, if there is one. -/
def Ensures (P : α → Prop) (computed : Lowered α) : Prop := ∀ value, computed = .ok value → P value

theorem ensures_fail (span : Span) (fault : Fault) : Ensures P (failAt span fault) := nofun

theorem ensures_ok {value : α} (h : P value) : Ensures P (.ok value) := by
  rintro _ ⟨⟩
  exact h

theorem Ensures.map {computed : Lowered α} (h : Ensures P computed) {change : α → β}
    (hchange : ∀ value, P value → Q (change value)) : Ensures Q (computed.map change) := by
  intro result hrun
  obtain ⟨value, hvalue, rfl⟩ := Lowered.map_eq_ok.mp hrun
  exact hchange value (h value hvalue)

theorem Ensures.bind {computed : Lowered α} (h : Ensures P computed) {next : α → Lowered β}
    (hnext : ∀ value, P value → Ensures Q (next value)) : Ensures Q (computed >>= next) := by
  intro result hrun
  obtain ⟨value, hvalue, hrest⟩ := Lowered.bind_eq_ok.mp hrun
  exact hnext value (h value hvalue) result hrest

end Results

/-! ## Faults -/

section Faults

variable {P : Fault → Prop}

/-- If the computation fails, then with such a fault at some place. -/
def Blames (P : Fault → Prop) (computed : Lowered α) : Prop :=
  ∀ e, computed = .error e → ∃ span cause, e = .fault span cause ∧ P cause

@[simp] theorem blames_ok (value : α) : Blames P (.ok value : Lowered α) := nofun

@[simp] theorem blames_pure (value : α) : Blames P (pure value : Lowered α) := nofun

@[simp] theorem blames_failAt {span : Span} {cause : Fault} :
    Blames P (failAt span cause : Lowered α) ↔ P cause := by
  constructor
  · intro h
    obtain ⟨_, _, heq, hcause⟩ := h _ rfl
    cases heq
    exact hcause
  · rintro h _ ⟨⟩
    exact ⟨span, cause, rfl, h⟩

@[simp] theorem blames_map {computed : Lowered α} {change : α → β} :
    Blames P (computed.map change) ↔ Blames P computed := by
  cases computed with
  | ok value => simp [Except.map]
  | error e =>
    constructor
    · rintro h _ ⟨⟩
      exact h e rfl
    · rintro h _ ⟨⟩
      exact h e rfl

theorem Blames.bind {computed : Lowered α} {next : α → Lowered β} (h : Blames P computed)
    (hnext : ∀ value, Blames P (next value)) : Blames P (computed >>= next) := by
  cases computed with
  | ok value => exact hnext value
  | error e =>
    rintro _ ⟨⟩
    exact h e rfl

end Faults

/-! ## Both -/

section Both

variable {P : Fault → Prop} {Q : α → Prop} {R : β → Prop}

/-- The computation has a result that meets a condition, or it fails with such a fault. -/
structure Ends (P : Fault → Prop) (Q : α → Prop) (computed : Lowered α) : Prop where
  blames : computed.Blames P
  ensures : computed.Ensures Q

theorem ends_pure {value : α} (h : Q value) : Ends P Q (pure value : Lowered α) :=
  ⟨blames_pure value, ensures_ok h⟩

theorem Blames.ends {computed : Lowered α} (h : computed.Blames P) :
    computed.Ends P fun _ => True := ⟨h, fun _ _ => trivial⟩

theorem Ends.bind {computed : Lowered α} (h : Ends P Q computed) {next : α → Lowered β}
    (hnext : ∀ value, Q value → Ends P R (next value)) : Ends P R (computed >>= next) := by
  cases computed with
  | ok value => exact hnext value (h.ensures value rfl)
  | error e =>
    constructor
    · rintro _ ⟨⟩
      exact h.blames e rfl
    · rintro _ ⟨⟩

theorem Ends.map {computed : Lowered α} (h : Ends P Q computed) {change : α → β}
    (hchange : ∀ value, Q value → R (change value)) : Ends P R (computed.map change) :=
  ⟨blames_map.mpr h.blames, h.ensures.map hchange⟩

end Both

/-! ## In step -/

section Step

variable {γ δ : Type} {R : α → β → Prop} {S : γ → δ → Prop}

/-- Two computations fail with the same error, or both have results, which are related. -/
inductive InStep (R : α → β → Prop) : Lowered α → Lowered β → Prop
  | ok {value : α} {value' : β} : R value value' → InStep R (.ok value) (.ok value')
  | error (e : LoweringError) : InStep R (.error e) (.error e)

theorem InStep.refl (computed : Lowered α) : InStep Eq computed computed := by
  cases computed with
  | ok value => exact .ok rfl
  | error e => exact .error e

theorem InStep.imp {R' : α → β → Prop} {computed : Lowered α} {computed' : Lowered β}
    (h : InStep R computed computed') (himp : ∀ value value', R value value' → R' value value') :
    InStep R' computed computed' := by
  cases h with
  | ok hvalue => exact .ok (himp _ _ hvalue)
  | error e => exact .error e

theorem InStep.bind {first : Lowered α} {first' : Lowered β} {next : α → Lowered γ}
    {next' : β → Lowered δ} (h : InStep R first first')
    (hnext : ∀ value value', R value value' → InStep S (next value) (next' value')) :
    InStep S (first >>= next) (first' >>= next') := by
  cases h with
  | ok hvalue => exact hnext _ _ hvalue
  | error e => exact .error e

theorem InStep.map {computed : Lowered α} {computed' : Lowered β} (h : InStep R computed computed')
    {change : α → γ} {change' : β → δ}
    (hchange : ∀ value value', R value value' → S (change value) (change' value')) :
    InStep S (computed.map change) (computed'.map change') := by
  cases h with
  | ok hvalue => exact .ok (hchange _ _ hvalue)
  | error e => exact .error e

/-- What two steps keep, two rounds keep. -/
theorem InStep.foldlM {step : α → γ → Lowered α} {step' : β → γ → Lowered β}
    (hstep : ∀ state state' item, R state state' → InStep R (step state item) (step' state' item)) :
    ∀ (items : List γ) {state : α} {state' : β}, R state state' →
      InStep R (items.foldlM step state) (items.foldlM step' state')
  | [], _, _, h => .ok h
  | item :: rest, state, state', h => by
    rw [List.foldlM_cons, List.foldlM_cons]
    exact (hstep state state' item h).bind fun _ _ hnext => InStep.foldlM hstep rest hnext

/-- If the one result is computed from the other, then so is the one computation. -/
theorem InStep.eq_map {change : α → β} {computed : Lowered α} {computed' : Lowered β}
    (h : InStep (fun value value' => value' = change value) computed computed') :
    computed' = computed.map change := by
  cases h with
  | ok hvalue => exact congrArg Except.ok hvalue
  | error e => rfl

/-- The results are the same and meet a condition. -/
def Same (P : α → Prop) (value value' : α) : Prop := value' = value ∧ P value

theorem Ensures.inStep {P : α → Prop} {computed : Lowered α} (h : computed.Ensures P) :
    InStep (Same P) computed computed := by
  cases computed with
  | ok value => exact .ok ⟨rfl, h value rfl⟩
  | error e => exact .error e

end Step

end NativeLowering.Lowered
