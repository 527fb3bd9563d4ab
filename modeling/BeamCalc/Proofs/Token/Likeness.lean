import BeamCalc.Token

/-!
# Likeness

The grammar looks at the positions of tokens in one place only: a sign before a number belongs to
it if the two touch (`touchesNumber`). Lists of the same tokens at other positions are therefore
alike if the same signs touch a number (`Alike`).

Two readings are compared by what they end in: both fail, with errors that are related, or both
succeed, with values that are (`Agree`).
-/

set_option autoImplicit false
set_option relaxedAutoImplicit false

namespace BeamCalc

/-- Whether a number stands directly behind the sign at `position`, before the tokens after it. -/
def touchesNumber (position : Nat) : List PlacedToken → Bool
  | ⟨.number _, start⟩ :: _ => start = position + 1
  | _ => false

/-- Lists of the same tokens at positions at which the same signs touch a number. -/
inductive Alike : List PlacedToken → List PlacedToken → Prop
  | nil : Alike [] []
  | cons {token : Token} {position position' : Nat} {tokens tokens' : List PlacedToken}
      (touches : ∀ sign : Mark, token = .mark sign → sign.isAdditive →
        touchesNumber position tokens = touchesNumber position' tokens')
      (rest : Alike tokens tokens') :
      Alike (⟨token, position⟩ :: tokens) (⟨token, position'⟩ :: tokens')

namespace Alike

theorem refl (tokens : List PlacedToken) : Alike tokens tokens := by
  induction tokens with
  | nil => exact .nil
  | cons placed tokens ih => exact .cons (fun _ _ _ ↦ rfl) ih

variable {tokens tokens' : List PlacedToken} {token : Token} {position : Nat}

/-- A list like one that begins with a token begins with that token. -/
theorem exists_cons (h : Alike (⟨token, position⟩ :: tokens) tokens') :
    ∃ position' rest', tokens' = ⟨token, position'⟩ :: rest' ∧ Alike tokens rest' ∧
      ∀ sign : Mark, token = .mark sign → sign.isAdditive →
        touchesNumber position tokens = touchesNumber position' rest' := by
  cases h with
  | cons touches rest => exact ⟨_, _, rfl, rest, touches⟩

theorem eq_nil (h : Alike [] tokens') : tokens' = [] := by
  cases h
  rfl

/-- What no mark at the beginning of a list has, none at the beginning of a list like it has. -/
theorem head_mark (h : Alike tokens tokens') {property : Mark → Prop}
    (hhead : ∀ sign position rest, tokens = ⟨.mark sign, position⟩ :: rest → property sign) :
    ∀ sign position rest, tokens' = ⟨.mark sign, position⟩ :: rest → property sign := by
  rintro sign position rest rfl
  cases h with
  | cons touches rest => exact hhead sign _ _ rfl

end Alike

/-! ### Results that agree -/

/-- Two results that both fail or both succeed, with related errors or values. -/
inductive Agree {failure value value' : Type} (onError : failure → failure → Prop)
    (onValue : value → value' → Prop) : Except failure value → Except failure value' → Prop
  | error {cause cause' : failure} (h : onError cause cause') :
      Agree onError onValue (.error cause) (.error cause')
  | ok {result : value} {result' : value'} (h : onValue result result') :
      Agree onError onValue (.ok result) (.ok result')

namespace Agree

variable {failure value value' : Type} {onError onError' : failure → failure → Prop}
  {onValue onValue' : value → value' → Prop} {result : Except failure value}
  {result' : Except failure value'}

/-- Results that agree do so in what follows from their relations. -/
theorem mono (h : Agree onError onValue result result')
    (herror : ∀ cause cause', onError cause cause' → onError' cause cause')
    (hvalue : ∀ value value', onValue value value' → onValue' value value') :
    Agree onError' onValue' result result' := by
  cases h with
  | error h => exact .error (herror _ _ h)
  | ok h => exact .ok (hvalue _ _ h)

/-- Results with the same error or the same value are the same. -/
theorem eq {result result' : Except failure value} (h : Agree Eq Eq result result') :
    result = result' := by
  cases h with
  | error h => exact congrArg Except.error h
  | ok h => exact congrArg Except.ok h

/-- Results with the same image of their errors and the same value. -/
theorem mapError_eq {image : Type} {f : failure → image} {result result' : Except failure value}
    (h : Agree (fun cause cause' ↦ f cause = f cause') Eq result result') :
    result.mapError f = result'.mapError f := by
  cases h with
  | error h => exact congrArg Except.error h
  | ok h => exact congrArg Except.ok h

/-- Sequences of steps agree if the steps do. -/
theorem bind {failure first first' second second' : Type}
    {onError : failure → failure → Prop} {onFirst : first → first' → Prop}
    {onSecond : second → second' → Prop} {step : Except failure first}
    {step' : Except failure first'} {next : first → Except failure second}
    {next' : first' → Except failure second'} (hstep : Agree onError onFirst step step')
    (hnext : ∀ value value', step = .ok value → onFirst value value' →
      Agree onError onSecond (next value) (next' value')) :
    Agree onError onSecond (step >>= next) (step' >>= next') := by
  cases hstep with
  | error h => exact .error h
  | ok h => exact hnext _ _ rfl h

end Agree

end BeamCalc
