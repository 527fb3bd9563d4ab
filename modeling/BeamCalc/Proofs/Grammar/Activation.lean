import BeamCalc.Proofs.Grammar.Nesting

/-!
# How deep the rules call each other

The rules of the grammar call each other within brackets, calls and exponents. Here they are read
with an allowance: how often the rules `sum` and `power` may be entered within each other. Every
activation of one of them takes one from its allowance, and there is no result once nothing is left
(`sumWithin`, `powerWithin`). The other rules (`sumBody` and its companions) are not recursive; what
they repeat, such as the terms of a sum, ends because each turn reads a token.

Each nesting level costs one activation of `power` and at most one of `sum`, so as many of both as
the nesting limit admits and one more are always enough: `Program.ofTokensWithin_eq` says that
every list of tokens whatever then has the result that it has without an allowance. No less will do
(`Program.ofTokensWithin_enclosed`).
-/

set_option autoImplicit false
set_option relaxedAutoImplicit false

namespace BeamCalc.Grammar

/-- A step that has a result, or none because an allowance is used up. -/
abbrev Attempt (result : Type) := ExceptT ParseError Option result

/-- A step that needs no allowance. -/
def Attempt.of {result : Type} (step : Except ParseError result) : Attempt result :=
  ExceptT.mk (some step)

/-- A rule with an allowance. -/
abbrev Reader := (assembly : Assembly) → (tokens : List PlacedToken) →
  Attempt (Assembly × Rest tokens.length)

/-- The same tokens under a bound that is greater by one. -/
def Rest.widen {bound : Nat} (rest : Rest bound) : Rest (bound + 1) :=
  ⟨rest.val, Nat.lt_succ_of_lt rest.property⟩

/-- The same tokens where those that they are left of stand behind a token. -/
def Rest.behind {bound : Nat} {tokens : List PlacedToken} (rest : Rest tokens.length)
    (shorter : tokens.length + 1 < bound) : Rest bound :=
  ⟨rest.val, Nat.lt_trans rest.property (Nat.lt_of_succ_lt shorter)⟩

theorem length_le_add_one (tokens : List PlacedToken) : tokens.length ≤ tokens.length + 1 :=
  Nat.le_succ tokens.length

/-! ### The rules with readers for what they call -/

/-- The further operands of a chain of operators, each of which `part` reads. -/
def chainBody (joins : Mark → Bool) (part : Reader) {bound : Nat} (assembly : Assembly)
    (tokens : List PlacedToken) (fits : tokens.length < bound) :
    Attempt (Assembly × Rest bound) :=
  match tokens with
  | ⟨.mark sign, position⟩ :: rest =>
    if joins sign then do
      let (assembly, ⟨rest, shorter⟩) ← part assembly rest
      chainBody joins part (assembly.emit (.operator sign.symbol)) rest
        (Nat.lt_trans shorter (Nat.lt_of_succ_lt fits))
    else return (assembly, ⟨⟨.mark sign, position⟩ :: rest, fits⟩)
  | tokens => return (assembly, ⟨tokens, fits⟩)
termination_by tokens.length
decreasing_by simp only [List.length_cons]; omega

/-- Powers joined by `*` and `/`. -/
def productBody (power : Reader) : Reader := fun assembly tokens ↦ do
  let (assembly, ⟨rest, shorter⟩) ← power assembly tokens
  chainBody Mark.isMultiplicative power assembly rest shorter

/-- Products joined by `+` and `-`. -/
def sumBody (power : Reader) : Reader := fun assembly tokens ↦ do
  let (assembly, ⟨rest, shorter⟩) ← productBody power assembly tokens
  chainBody Mark.isAdditive (productBody power) assembly rest shorter

/-- The arguments of a call, each of which is a sum. -/
def argumentsBody (sum : Reader) {bound : Nat} (opening count : Nat) (assembly : Assembly)
    (tokens : List PlacedToken) (fits : tokens.length < bound) :
    Attempt (Nat × Assembly × Rest bound) := do
  let (assembly, left) ← sum assembly tokens
  match left with
  | ⟨⟨.mark .comma, _⟩ :: rest, shorter⟩ =>
    have : rest.length < tokens.length := Nat.lt_of_succ_lt shorter
    argumentsBody sum opening (count + 1) assembly rest (Nat.lt_trans this fits)
  | ⟨⟨.mark .closeParen, _⟩ :: rest, shorter⟩ =>
    return (count, assembly, ⟨rest, Nat.lt_trans (Nat.lt_of_succ_lt shorter) fits⟩)
  | _ => throw ⟨.unclosedParen, opening⟩
termination_by tokens.length

/-- A number, a name, a call or a bracketed sum. -/
def primaryBody (sum : Reader) : Reader := fun assembly tokens ↦
  match tokens with
  | [] => throw ⟨.unexpectedEnd, assembly.textEnd⟩
  | ⟨.number value, _⟩ :: rest =>
    return (assembly.emit (.number value), ⟨rest, length_lt_add_one rest⟩)
  | ⟨.name name, position⟩ :: ⟨.mark .openParen, opening⟩ :: rest => do
    let inner ← Attempt.of (assembly.descend opening)
    let (count, inner, rest) ← argumentsBody sum opening 1 inner rest (length_lt_add_one rest)
    let assembly ← Attempt.of (emitCall inner.ascend name position count)
    return (assembly, rest.widen)
  | ⟨.name name, _⟩ :: rest => return (assembly.emit (.load name), ⟨rest, length_lt_add_one rest⟩)
  | ⟨.mark .openParen, opening⟩ :: rest => do
    let inner ← Attempt.of (assembly.descend opening)
    let (inner, left) ← sum inner rest
    let rest ← Attempt.of (closingParen opening left)
    return (inner.ascend, rest.widen)
  | ⟨.mark .plus, position⟩ :: rest =>
    Attempt.of (signedNumber assembly .plus position rest (length_le_add_one rest))
  | ⟨.mark .minus, position⟩ :: rest =>
    Attempt.of (signedNumber assembly .minus position rest (length_le_add_one rest))
  | ⟨token, position⟩ :: _ => throw ⟨.unexpectedToken token.text, position⟩

/-- A primary with at most one minus before it. -/
def operandBody (sum : Reader) : Reader := fun assembly tokens ↦
  match tokens with
  | ⟨.mark .minus, _⟩ :: rest => do
    let (assembly, rest) ← primaryBody sum assembly rest
    return (assembly.emit .negate, rest.widen)
  | tokens => primaryBody sum assembly tokens

/-- An operand, raised to a power when `^` follows. -/
def powerBody (sum power : Reader) : Reader := fun assembly tokens ↦ do
  let (assembly, left) ← operandBody sum assembly tokens
  match left with
  | ⟨⟨.mark .power, position⟩ :: rest, shorter⟩ => do
    let inner ← Attempt.of (assembly.descend position)
    let (inner, rest) ← power inner rest
    return (inner.ascend.emit (.operator Mark.power.symbol), rest.behind shorter)
  | left => return (assembly, left)

/-! ### The rules with an allowance -/

mutual

/-- A sum, if the rules `sum` and `power` may be entered so often within each other. -/
def sumWithin : (sums powers : Nat) → Reader
  | 0, _ => fun _ _ ↦ none
  | sums + 1, powers => sumBody (powerWithin sums powers)
termination_by sums powers => sums + powers

/-- A power, if the rules `sum` and `power` may be entered so often within each other. -/
def powerWithin : (sums powers : Nat) → Reader
  | _, 0 => fun _ _ ↦ none
  | sums, powers + 1 => powerBody (sumWithin sums powers) (powerWithin sums powers)
termination_by sums powers => sums + powers

end

/-- Steps that need no allowance need none one after the other. -/
theorem Attempt.of_bind {first second : Type} {step : Except ParseError first}
    {next : first → Except ParseError second} {attempt : first → Attempt second}
    (h : ∀ value, step = .ok value → attempt value = .of (next value)) :
    (Attempt.of step >>= attempt) = .of (step >>= next) := by
  cases step with
  | error error => rfl
  | ok value => exact h value rfl

/-! ### The levels that a rule leaves open -/

variable {assembly extended : Assembly} {tokens : List PlacedToken} {depth : Nat}

/-- Where a phrase has been read, as many levels are open as there were. -/
theorem Reading.depth_eq {rule : Rule} {bound : Nat} {reading : Reading bound} {rest : Rest bound}
    (hread : reading.plain = .ok (extended, rest.val) →
      ∃ phrase : Phrase rule, phrase.IsRead assembly tokens extended rest.val)
    (hdepth : assembly.depth ≤ nestingLimit) (h : reading = .ok (extended, rest)) :
    extended.depth = assembly.depth := by
  have hplain : reading.plain = .ok (extended, rest.val) := by
    rw [h]
    rfl
  obtain ⟨phrase, hphrase⟩ := hread hplain
  obtain ⟨-, -, rfl⟩ := (phrase.emits_assemble hdepth).mp hphrase.assembles
  rfl

theorem depth_of_sum {rest : Rest tokens.length} (hdepth : assembly.depth ≤ nestingLimit)
    (h : sum assembly tokens = .ok (extended, rest)) : extended.depth = assembly.depth :=
  Reading.depth_eq isRead_of_readSum hdepth h

theorem depth_of_product {rest : Rest tokens.length} (hdepth : assembly.depth ≤ nestingLimit)
    (h : product assembly tokens = .ok (extended, rest)) : extended.depth = assembly.depth :=
  Reading.depth_eq isRead_of_readProduct hdepth h

theorem depth_of_power {rest : Rest tokens.length} (hdepth : assembly.depth ≤ nestingLimit)
    (h : power assembly tokens = .ok (extended, rest)) : extended.depth = assembly.depth :=
  Reading.depth_eq isRead_of_readPower hdepth h

theorem depth_of_operand {rest : Rest tokens.length} (hdepth : assembly.depth ≤ nestingLimit)
    (h : operand assembly tokens = .ok (extended, rest)) : extended.depth = assembly.depth :=
  Reading.depth_eq isRead_of_readOperand hdepth h

/-- A level is opened within the limit. -/
theorem depth_of_descend {deeper : Assembly} {position : Nat}
    (h : assembly.descend position = .ok deeper) :
    assembly.depth < nestingLimit ∧ deeper.depth = assembly.depth + 1 := by
  unfold Assembly.descend at h
  split at h
  · cases h
  · cases h
    exact ⟨by omega, rfl⟩

/-! ### Readers that have the results of rules -/

/-- Whether a reader has the result of a rule wherever `depth` levels are open. -/
def Reader.Agrees (reader : Reader)
    (rule : (assembly : Assembly) → (tokens : List PlacedToken) → Reading tokens.length)
    (depth : Nat) : Prop :=
  ∀ ⦃assembly⦄, assembly.depth = depth → ∀ tokens,
    reader assembly tokens = .of (rule assembly tokens)

theorem chainBody_productTail {reader : Reader} (hreader : reader.Agrees power depth)
    (hlimit : depth ≤ nestingLimit) {bound : Nat} {assembly : Assembly}
    (hdepth : assembly.depth = depth) (tokens : List PlacedToken) (fits : tokens.length < bound) :
    chainBody Mark.isMultiplicative reader assembly tokens fits =
      .of (productTail assembly tokens fits) := by
  rw [chainBody.eq_def, productTail.eq_def]
  match tokens with
  | [] => rfl
  | ⟨.number _, _⟩ :: _ => rfl
  | ⟨.name _, _⟩ :: _ => rfl
  | ⟨.mark sign, position⟩ :: rest =>
    dsimp only
    split
    · rw [hreader hdepth rest]
      refine Attempt.of_bind ?_
      rintro ⟨extended, left, shorter⟩ hread
      refine chainBody_productTail hreader hlimit ?_ left _
      exact (depth_of_power (by omega) hread).trans hdepth
    · rfl
termination_by tokens.length
decreasing_by all_goals (simp only [List.length_cons]; omega)

theorem productBody_agrees {reader : Reader} (hreader : reader.Agrees power depth)
    (hlimit : depth ≤ nestingLimit) : (productBody reader).Agrees product depth := by
  intro assembly hdepth tokens
  rw [productBody, product, hreader hdepth tokens]
  refine Attempt.of_bind ?_
  rintro ⟨extended, rest, shorter⟩ hread
  refine chainBody_productTail hreader hlimit ?_ rest _
  exact (depth_of_power (by omega) hread).trans hdepth

theorem chainBody_sumTail {reader : Reader} (hreader : reader.Agrees product depth)
    (hlimit : depth ≤ nestingLimit) {bound : Nat} {assembly : Assembly}
    (hdepth : assembly.depth = depth) (tokens : List PlacedToken) (fits : tokens.length < bound) :
    chainBody Mark.isAdditive reader assembly tokens fits = .of (sumTail assembly tokens fits) := by
  rw [chainBody.eq_def, sumTail.eq_def]
  match tokens with
  | [] => rfl
  | ⟨.number _, _⟩ :: _ => rfl
  | ⟨.name _, _⟩ :: _ => rfl
  | ⟨.mark sign, position⟩ :: rest =>
    dsimp only
    split
    · rw [hreader hdepth rest]
      refine Attempt.of_bind ?_
      rintro ⟨extended, left, shorter⟩ hread
      refine chainBody_sumTail hreader hlimit ?_ left _
      exact (depth_of_product (by omega) hread).trans hdepth
    · rfl
termination_by tokens.length
decreasing_by all_goals (simp only [List.length_cons]; omega)

theorem sumBody_agrees {reader : Reader} (hreader : reader.Agrees power depth)
    (hlimit : depth ≤ nestingLimit) : (sumBody reader).Agrees sum depth := by
  intro assembly hdepth tokens
  have hproduct := productBody_agrees hreader hlimit
  rw [sumBody, sum, hproduct hdepth tokens]
  refine Attempt.of_bind ?_
  rintro ⟨extended, rest, shorter⟩ hread
  refine chainBody_sumTail hproduct hlimit ?_ rest _
  exact (depth_of_product (by omega) hread).trans hdepth

theorem argumentsBody_agrees {reader : Reader} (hreader : reader.Agrees sum depth)
    (hlimit : depth ≤ nestingLimit) {bound : Nat} (opening count : Nat) {assembly : Assembly}
    (hdepth : assembly.depth = depth) (tokens : List PlacedToken) (fits : tokens.length < bound) :
    argumentsBody reader opening count assembly tokens fits =
      .of (arguments opening count assembly tokens fits) := by
  rw [argumentsBody.eq_def, arguments.eq_def, hreader hdepth tokens]
  refine Attempt.of_bind ?_
  rintro ⟨extended, left, shorter⟩ hread
  match left with
  | [] => rfl
  | ⟨.number _, _⟩ :: _ => rfl
  | ⟨.name _, _⟩ :: _ => rfl
  | ⟨.mark sign, position⟩ :: rest =>
    cases sign with
    | comma =>
      refine argumentsBody_agrees hreader hlimit opening (count + 1) ?_ rest _
      exact (depth_of_sum (by omega) hread).trans hdepth
    | _ => rfl
termination_by tokens.length
decreasing_by exact Nat.lt_of_succ_lt shorter

/-- A primary enters `sum` only within a level of its own. -/
theorem primaryBody_agrees {reader : Reader}
    (hreader : depth < nestingLimit → reader.Agrees sum (depth + 1)) :
    (primaryBody reader).Agrees primary depth := by
  rintro assembly rfl tokens
  rw [primaryBody.eq_def, primary.eq_def]
  match tokens with
  | [] => rfl
  | ⟨.number _, _⟩ :: _ => rfl
  | ⟨.name _, _⟩ :: [] => rfl
  | ⟨.name _, _⟩ :: ⟨.number _, _⟩ :: _ => rfl
  | ⟨.name _, _⟩ :: ⟨.name _, _⟩ :: _ => rfl
  | ⟨.name name, position⟩ :: ⟨.mark sign, opening⟩ :: rest =>
    cases sign with
    | openParen =>
      refine Attempt.of_bind fun deeper hdescend ↦ ?_
      obtain ⟨hlimit, hdeeper⟩ := depth_of_descend hdescend
      rw [argumentsBody_agrees (hreader hlimit) hlimit opening 1 hdeeper rest _]
      refine Attempt.of_bind ?_
      rintro ⟨count, inner, left, shorter⟩ -
      exact Attempt.of_bind fun _ _ ↦ rfl
    | _ => rfl
  | ⟨.mark sign, position⟩ :: rest =>
    cases sign with
    | openParen =>
      refine Attempt.of_bind fun deeper hdescend ↦ ?_
      obtain ⟨hlimit, hdeeper⟩ := depth_of_descend hdescend
      rw [hreader hlimit hdeeper rest]
      refine Attempt.of_bind ?_
      rintro ⟨inner, left⟩ -
      exact Attempt.of_bind fun _ _ ↦ rfl
    | _ => rfl

theorem operandBody_agrees {reader : Reader}
    (hreader : depth < nestingLimit → reader.Agrees sum (depth + 1)) :
    (operandBody reader).Agrees operand depth := by
  intro assembly hdepth tokens
  rw [operandBody.eq_def, operand.eq_def]
  match tokens with
  | [] => exact primaryBody_agrees hreader hdepth []
  | ⟨.number value, position⟩ :: rest => exact primaryBody_agrees hreader hdepth _
  | ⟨.name name, position⟩ :: rest => exact primaryBody_agrees hreader hdepth _
  | ⟨.mark sign, position⟩ :: rest =>
    cases sign with
    | minus =>
      dsimp only
      rw [primaryBody_agrees hreader hdepth rest]
      exact Attempt.of_bind fun _ _ ↦ rfl
    | _ => exact primaryBody_agrees hreader hdepth _

/-- A power enters itself only within a level of its own. -/
theorem powerBody_agrees {reader reader' : Reader} (hdepth : depth ≤ nestingLimit)
    (hsum : depth < nestingLimit → reader.Agrees sum (depth + 1))
    (hpower : depth < nestingLimit → reader'.Agrees power (depth + 1)) :
    (powerBody reader reader').Agrees power depth := by
  rintro assembly rfl tokens
  rw [powerBody, power.eq_def, operandBody_agrees hsum rfl tokens]
  refine Attempt.of_bind ?_
  rintro ⟨extended, left, shorter⟩ hread
  have hextended := depth_of_operand hdepth hread
  match left with
  | [] => rfl
  | ⟨.number _, _⟩ :: _ => rfl
  | ⟨.name _, _⟩ :: _ => rfl
  | ⟨.mark sign, position⟩ :: rest =>
    cases sign with
    | power =>
      refine Attempt.of_bind fun deeper hdescend ↦ ?_
      obtain ⟨hlimit, hdeeper⟩ := depth_of_descend hdescend
      rw [hextended] at hlimit hdeeper
      rw [hpower hlimit hdeeper rest]
      exact Attempt.of_bind fun _ _ ↦ rfl
    | _ => rfl

/-! ### What is left of the allowance at a depth

At a depth there are as many activations of `power` to come as levels that can still be opened, and
one more; a `sum` is the same, except where a `power` of the same depth is being read already, whose
`sum` has been taken from the allowance.
-/

mutual

/-- A sum has its result with an activation of `sum` and of `power` for each level that may be open
within it, its own included. -/
theorem sumWithin_agrees {depth sums powers : Nat} (hdepth : depth ≤ nestingLimit)
    (hsums : nestingLimit < depth + sums) (hpowers : nestingLimit < depth + powers) :
    (sumWithin sums powers).Agrees sum depth := by
  match sums with
  | 0 => omega
  | sums + 1 =>
    rw [sumWithin]
    exact sumBody_agrees (powerWithin_agrees hdepth (by omega) hpowers) hdepth
termination_by sums + powers

/-- A power has its result with one activation of `sum` fewer. -/
theorem powerWithin_agrees {depth sums powers : Nat} (hdepth : depth ≤ nestingLimit)
    (hsums : nestingLimit ≤ depth + sums) (hpowers : nestingLimit < depth + powers) :
    (powerWithin sums powers).Agrees power depth := by
  match powers with
  | 0 => omega
  | powers + 1 =>
    rw [powerWithin]
    exact powerBody_agrees hdepth
      (fun hdeeper ↦ sumWithin_agrees hdeeper (by omega) (by omega))
      (fun hdeeper ↦ powerWithin_agrees hdeeper (by omega) (by omega))
termination_by sums + powers

end

/-! ### No less of an allowance -/

theorem sumWithin_of_eq_zero {sums powers : Nat} (h : sums = 0 ∨ powers = 0) (assembly : Assembly)
    (tokens : List PlacedToken) : sumWithin sums powers assembly tokens = none := by
  match sums, powers with
  | 0, _ => rw [sumWithin]
  | sums + 1, 0 =>
    rw [sumWithin, powerWithin]
    rfl
  | _ + 1, _ + 1 => omega

/-- A sum that begins with a bracket has no result where the sum in the bracket has none. -/
theorem sumWithin_group {sums powers position : Nat} {assembly : Assembly}
    {tokens : List PlacedToken} (hdepth : assembly.depth < nestingLimit)
    (h : sumWithin sums powers { assembly with depth := assembly.depth + 1 } tokens = none) :
    sumWithin (sums + 1) (powers + 1) assembly (⟨.mark .openParen, position⟩ :: tokens) = none := by
  have hdescend : assembly.descend position =
      .ok { assembly with depth := assembly.depth + 1 } :=
    if_neg (Nat.not_le.mpr hdepth)
  have hoperand : operandBody (sumWithin sums powers) assembly
      (⟨.mark .openParen, position⟩ :: tokens) = none := by
    rw [operandBody.eq_def]
    dsimp only
    rw [primaryBody.eq_def]
    dsimp only
    rw [hdescend]
    change (sumWithin sums powers _ tokens >>= _) = _
    rw [h]
    rfl
  rw [sumWithin, powerWithin, sumBody, productBody, powerBody, hoperand]
  rfl

/-- Brackets within each other need as many activations as there are, and one more. -/
theorem sumWithin_enclosed {sums powers levels : Nat} (hless : sums ≤ levels ∨ powers ≤ levels)
    {assembly : Assembly} (hdepth : assembly.depth + levels ≤ nestingLimit) (position : Nat)
    (rest : List PlacedToken) :
    sumWithin sums powers assembly ((Phrase.enclosed levels position).tokens ++ rest) = none := by
  induction levels generalizing sums powers assembly position rest with
  | zero => exact sumWithin_of_eq_zero (by omega) assembly _
  | succ levels ih =>
    match sums, powers with
    | 0, powers => exact sumWithin_of_eq_zero (.inl rfl) assembly _
    | sums, 0 => exact sumWithin_of_eq_zero (.inr rfl) assembly _
    | sums + 1, powers + 1 =>
      have htokens : (Phrase.enclosed (levels + 1) position).tokens ++ rest =
          ⟨.mark .openParen, position⟩ :: ((Phrase.enclosed levels (position + 1)).tokens ++
            ⟨.mark .closeParen, position + 2 * levels + 2⟩ :: rest) := by
        simp [Phrase.enclosed, Phrase.tokens]
      rw [htokens]
      refine sumWithin_group (by omega) (ih (by omega) ?_ _ _)
      dsimp only
      omega

end BeamCalc.Grammar

namespace BeamCalc.Program

open Grammar

/-- The program of a list of tokens, if the rules `sum` and `power` may be entered so often within
each other. -/
def ofTokensWithin (sums powers : Nat) (vocabulary : Vocabulary) (textEnd : Nat)
    (tokens : List PlacedToken) : Option (Except ParseError Program) :=
  if tokens.isEmpty then some (.error ⟨.emptyInput, textEnd⟩)
  else ExceptT.run do
    let (assembly, rest) ← sumWithin sums powers { vocabulary, textEnd } tokens
    match rest.val with
    | [] => return assembly.program
    | ⟨token, position⟩ :: _ => throw ⟨.trailingTokens token.text, position⟩

/-- A list of tokens whatever has the result that it has without an allowance when the rules `sum`
and `power` may be entered once more than levels may be open. -/
theorem ofTokensWithin_eq (vocabulary : Vocabulary) (textEnd : Nat) (tokens : List PlacedToken) :
    ofTokensWithin (nestingLimit + 1) (nestingLimit + 1) vocabulary textEnd tokens =
      some (ofTokens vocabulary textEnd tokens) := by
  rw [ofTokensWithin, ofTokens]
  split
  · rfl
  · have hsum := sumWithin_agrees (Nat.zero_le _) (Nat.lt_add_left 0 (Nat.lt_succ_self _))
      (Nat.lt_add_left 0 (Nat.lt_succ_self _))
    rw [hsum (show ({ vocabulary, textEnd } : Assembly).depth = 0 from rfl) tokens]
    refine Attempt.of_bind ?_
    rintro ⟨assembly, rest, shorter⟩ -
    cases rest with
    | nil => rfl
    | cons placed after => rfl

/-- No smaller allowance is enough for all lists of tokens: it is used up within as many brackets as
there may be. -/
theorem ofTokensWithin_enclosed {sums powers : Nat}
    (hless : sums ≤ nestingLimit ∨ powers ≤ nestingLimit) (vocabulary : Vocabulary)
    (textEnd : Nat) :
    ofTokensWithin sums powers vocabulary textEnd (Phrase.enclosed nestingLimit 0).tokens =
      none := by
  have hnonempty : (Phrase.enclosed nestingLimit 0).tokens.isEmpty = false :=
    List.isEmpty_eq_false_iff.mpr (Phrase.tokens_ne_nil _ (by simp) (by simp))
  have hsum : sumWithin sums powers { vocabulary, textEnd }
      ((Phrase.enclosed nestingLimit 0).tokens ++ []) = none :=
    sumWithin_enclosed hless (Nat.le_of_eq (Nat.zero_add _)) 0 []
  rw [List.append_nil] at hsum
  rw [ofTokensWithin, hnonempty, if_neg Bool.false_ne_true, hsum]
  rfl

end BeamCalc.Program
