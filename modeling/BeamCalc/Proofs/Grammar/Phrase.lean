import BeamCalc.Grammar

/-!
# Phrases

A `Phrase` of a rule is a derivation of that rule: it says which alternative is taken at each place
and keeps the tokens with their positions. Terms are joined to a sum one after the other
(`furtherTerms`), factors to a product likewise, and the exponent of a power is a power itself. A
minus at the beginning of an operand is always the negation of the operand, so a number with a
minus of its own occurs only behind such a negation: the rule `negatable` admits it, the rule
`primary` does not. A sign of a number touches the number, which therefore stands one byte after it.

`tokens` are the tokens that a phrase derives, `emission` is its postfix form, `depth` the nesting
depth: one level for the inside of a bracket or a call, one for the right side of `^`. How many
arguments a call may have depends on the vocabulary (`CallsFit`); a phrase may break that rule.

`assemble` emits a phrase into a program under construction, with the checks of depth and of
arguments in the order of the tokens. `emits_assemble` says that this succeeds exactly for the
phrases whose calls fit and whose depth is within the limit, and that it appends the emission.
-/

set_option autoImplicit false
set_option relaxedAutoImplicit false

namespace BeamCalc

/-- A sequence of two steps succeeds when both do. -/
theorem bind_eq_ok_iff {failure first second : Type} {step : Except failure first}
    {next : first → Except failure second} {result : second} :
    (step >>= next) = .ok result ↔ ∃ middle, step = .ok middle ∧ next middle = .ok result := by
  cases step with
  | error cause =>
    constructor
    · intro h
      cases h
    · rintro ⟨middle, h, -⟩
      cases h
  | ok middle =>
    constructor
    · intro h
      exact ⟨middle, rfl, h⟩
    · rintro ⟨middle', h, hnext⟩
      cases h
      exact hnext

namespace Assembly

/-- Several instructions more. -/
def emitAll (assembly : Assembly) (instructions : List Instruction) : Assembly :=
  { assembly with emitted := instructions.reverse ++ assembly.emitted }

@[simp] theorem depth_emitAll (assembly : Assembly) (instructions : List Instruction) :
    (assembly.emitAll instructions).depth = assembly.depth := rfl

@[simp] theorem emitAll_nil (assembly : Assembly) : assembly.emitAll [] = assembly := rfl

@[simp] theorem emitAll_emitAll (assembly : Assembly) (first second : List Instruction) :
    (assembly.emitAll first).emitAll second = assembly.emitAll (first ++ second) := by
  simp [emitAll]

theorem emit_eq_emitAll (assembly : Assembly) (instruction : Instruction) :
    assembly.emit instruction = assembly.emitAll [instruction] := rfl

/-- What is emitted from the beginning is the program. -/
@[simp] theorem program_emitAll (vocabulary : Vocabulary) (textEnd : Nat)
    (instructions : List Instruction) :
    (emitAll { vocabulary, textEnd } instructions).program = ⟨instructions⟩ := by
  simp [emitAll, program]

/-- One action of an assembly within a nesting level that the token at `position` opens. -/
def nested (position : Nat) (action : Assembly → Except ParseError Assembly)
    (assembly : Assembly) : Except ParseError Assembly := do
  let deeper ← assembly.descend position
  let deeper ← action deeper
  return deeper.ascend

/-- An action that succeeds exactly if the vocabulary satisfies `fits` and `levels` more nesting
levels may be opened, and then emits `instructions`. -/
def Emits (action : Assembly → Except ParseError Assembly) (fits : Vocabulary → Prop)
    (levels : Nat) (instructions : List Instruction) : Prop :=
  ∀ ⦃assembly extended : Assembly⦄, assembly.depth ≤ nestingLimit →
    (action assembly = .ok extended ↔
      fits assembly.vocabulary ∧ assembly.depth + levels ≤ nestingLimit ∧
        assembly.emitAll instructions = extended)

namespace Emits

variable {action next : Assembly → Except ParseError Assembly} {fits fits' : Vocabulary → Prop}
  {levels levels' : Nat} {instructions instructions' : List Instruction}

/-- Doing nothing emits nothing. -/
theorem done : Emits .ok (fun _ ↦ True) 0 [] := by
  intro assembly extended hdepth
  simp [hdepth]

/-- One instruction is emitted in any case. -/
theorem emit (instruction : Instruction) :
    Emits (fun assembly ↦ .ok (assembly.emit instruction)) (fun _ ↦ True) 0 [instruction] := by
  intro assembly extended hdepth
  simp [hdepth, emit_eq_emitAll]

/-- Two actions one after the other emit one after the other. -/
theorem andThen (haction : Emits action fits levels instructions)
    (hnext : Emits next fits' levels' instructions') :
    Emits (fun assembly ↦ action assembly >>= next)
      (fun vocabulary ↦ fits vocabulary ∧ fits' vocabulary) (max levels levels')
      (instructions ++ instructions') := by
  intro assembly extended hdepth
  have hmiddle : (assembly.emitAll instructions).depth ≤ nestingLimit := hdepth
  simp only [bind_eq_ok_iff, haction hdepth]
  constructor
  · rintro ⟨_, ⟨hfits, hlevels, rfl⟩, hrest⟩
    obtain ⟨hfits', hlevels', rfl⟩ := (hnext hmiddle).mp hrest
    rw [depth_emitAll] at hlevels'
    refine ⟨⟨hfits, hfits'⟩, by omega, ?_⟩
    rw [emitAll_emitAll]
  · rintro ⟨⟨hfits, hfits'⟩, hlevels, rfl⟩
    refine ⟨_, ⟨hfits, by omega, rfl⟩, (hnext hmiddle).mpr ⟨hfits', ?_, emitAll_emitAll _ _ _⟩⟩
    rw [depth_emitAll]
    omega

/-- One instruction after an action. -/
theorem andEmit (haction : Emits action fits levels instructions) (instruction : Instruction) :
    Emits (fun assembly ↦ action assembly >>= fun assembly ↦ .ok (assembly.emit instruction))
      fits levels (instructions ++ [instruction]) := by
  intro assembly extended hdepth
  simpa using haction.andThen (emit instruction) hdepth

/-- One instruction before an action. -/
theorem emitThen (instruction : Instruction) (haction : Emits action fits levels instructions) :
    Emits (fun assembly ↦ action (assembly.emit instruction)) fits levels
      (instruction :: instructions) := by
  intro assembly extended hdepth
  have hboth := @andThen _ _ _ _ _ _ _ _ (emit instruction) haction assembly extended hdepth
  simp only [true_and, Nat.zero_max] at hboth
  exact hboth

/-- An action within a nesting level emits the same and needs that level more. -/
theorem nested (haction : Emits action fits levels instructions) (position : Nat) :
    Emits (Assembly.nested position action) fits (levels + 1) instructions := by
  intro assembly extended hdepth
  simp only [Assembly.nested, descend, bind_eq_ok_iff]
  constructor
  · rintro ⟨deeper, hopen, deeper', hinner, hclose⟩
    split at hopen
    · cases hopen
    · obtain rfl := Except.ok.inj hopen
      obtain rfl := Except.ok.inj hclose
      obtain ⟨hfits, hlevels, rfl⟩ := (haction (by simpa using by omega)).mp hinner
      simp only at hlevels
      exact ⟨hfits, by omega, rfl⟩
  · rintro ⟨hfits, hlevels, rfl⟩
    refine ⟨{ assembly with depth := assembly.depth + 1 }, if_neg (by omega), _,
      (haction (by simpa using by omega)).mpr ⟨hfits, by simpa using by omega, rfl⟩, rfl⟩

end Emits

end Assembly

namespace Grammar

/-- A call is emitted if it has the number of arguments that the vocabulary wants. -/
theorem emits_emitCall (name : String) (position count : Nat) :
    Assembly.Emits (emitCall · name position count)
      (fun vocabulary ↦ count = vocabulary.arity name) 0 [.function name] := by
  intro assembly extended hdepth
  unfold emitCall
  by_cases harity : count = assembly.vocabulary.arity name
  · simp [harity, hdepth, Assembly.emit_eq_emitAll]
  · simp [harity]

/-- The rules of the grammar. -/
inductive Rule where
  /-- Products joined by `+` and `-`. -/
  | sum
  /-- What follows the first term of a sum. -/
  | furtherTerms
  /-- Powers joined by `*` and `/`. -/
  | product
  /-- What follows the first factor of a product. -/
  | furtherFactors
  /-- An operand, raised to a power or not. -/
  | power
  /-- A primary, or a minus and what it negates. -/
  | operand
  /-- What the minus of an operand may negate. -/
  | negatable
  /-- A number, a name, a call or a bracketed sum. -/
  | primary
  /-- The arguments of a call. -/
  | arguments
  deriving Repr, DecidableEq

/-- Derivations of the rules. -/
inductive Phrase : Rule → Type where
  | sum (first : Phrase .product) (others : Phrase .furtherTerms) : Phrase .sum
  | noTerm : Phrase .furtherTerms
  | term (sign : Mark) (additive : sign.isAdditive) (position : Nat) (next : Phrase .product)
      (others : Phrase .furtherTerms) : Phrase .furtherTerms
  | product (first : Phrase .power) (others : Phrase .furtherFactors) : Phrase .product
  | noFactor : Phrase .furtherFactors
  | factor (sign : Mark) (multiplicative : sign.isMultiplicative) (position : Nat)
      (next : Phrase .power) (others : Phrase .furtherFactors) : Phrase .furtherFactors
  | unraised (base : Phrase .operand) : Phrase .power
  | raised (base : Phrase .operand) (position : Nat) (exponent : Phrase .power) : Phrase .power
  | unsigned (inner : Phrase .primary) : Phrase .operand
  | negated (position : Nat) (inner : Phrase .negatable) : Phrase .operand
  | bare (inner : Phrase .primary) : Phrase .negatable
  /-- A number with a minus that touches it. -/
  | negative (position : Nat) (value : Float) : Phrase .negatable
  | number (position : Nat) (value : Float) : Phrase .primary
  /-- A number with a plus that touches it. -/
  | positive (position : Nat) (value : Float) : Phrase .primary
  /-- A name that is no call. No rule puts a bracket after a primary, so none follows it. -/
  | named (position : Nat) (name : String) : Phrase .primary
  | call (position : Nat) (name : String) (opening : Nat) (arguments : Phrase .arguments)
      (closing : Nat) : Phrase .primary
  | group (opening : Nat) (inner : Phrase .sum) (closing : Nat) : Phrase .primary
  | last (argument : Phrase .sum) : Phrase .arguments
  | further (argument : Phrase .sum) (comma : Nat) (others : Phrase .arguments) : Phrase .arguments

namespace Phrase

variable {rule : Rule}

/-- The tokens that a phrase derives. -/
def tokens {rule : Rule} : Phrase rule → List PlacedToken
  | sum first others => first.tokens ++ others.tokens
  | noTerm => []
  | term sign _ position next others => ⟨.mark sign, position⟩ :: (next.tokens ++ others.tokens)
  | product first others => first.tokens ++ others.tokens
  | noFactor => []
  | factor sign _ position next others => ⟨.mark sign, position⟩ :: (next.tokens ++ others.tokens)
  | unraised base => base.tokens
  | raised base position exponent => base.tokens ++ ⟨.mark .power, position⟩ :: exponent.tokens
  | unsigned inner => inner.tokens
  | negated position inner => ⟨.mark .minus, position⟩ :: inner.tokens
  | bare inner => inner.tokens
  | negative position value => [⟨.mark .minus, position⟩, ⟨.number value, position + 1⟩]
  | number position value => [⟨.number value, position⟩]
  | positive position value => [⟨.mark .plus, position⟩, ⟨.number value, position + 1⟩]
  | named position name => [⟨.name name, position⟩]
  | call position name opening arguments closing =>
    ⟨.name name, position⟩ :: ⟨.mark .openParen, opening⟩ ::
      (arguments.tokens ++ [⟨.mark .closeParen, closing⟩])
  | group opening inner closing =>
    ⟨.mark .openParen, opening⟩ :: (inner.tokens ++ [⟨.mark .closeParen, closing⟩])
  | last argument => argument.tokens
  | further argument comma others => argument.tokens ++ ⟨.mark .comma, comma⟩ :: others.tokens

/-- The postfix form of a phrase. An operator follows its right operand, and its left operand is
all that comes before that; a function follows its arguments. -/
def emission {rule : Rule} : Phrase rule → List Instruction
  | sum first others => first.emission ++ others.emission
  | noTerm => []
  | term sign _ _ next others => next.emission ++ .operator sign.symbol :: others.emission
  | product first others => first.emission ++ others.emission
  | noFactor => []
  | factor sign _ _ next others => next.emission ++ .operator sign.symbol :: others.emission
  | unraised base => base.emission
  | raised base _ exponent =>
    base.emission ++ (exponent.emission ++ [.operator Mark.power.symbol])
  | unsigned inner => inner.emission
  | negated _ inner => inner.emission ++ [.negate]
  | bare inner => inner.emission
  | negative _ value => [.number (-value)]
  | number _ value => [.number value]
  | positive _ value => [.number value]
  | named _ name => [.load name]
  | call _ name _ arguments _ => arguments.emission ++ [.function name]
  | group _ inner _ => inner.emission
  | last argument => argument.emission
  | further argument _ others => argument.emission ++ others.emission

/-- How many nesting levels are open at once. -/
def depth {rule : Rule} : Phrase rule → Nat
  | sum first others => max first.depth others.depth
  | noTerm => 0
  | term _ _ _ next others => max next.depth others.depth
  | product first others => max first.depth others.depth
  | noFactor => 0
  | factor _ _ _ next others => max next.depth others.depth
  | unraised base => base.depth
  | raised base _ exponent => max base.depth (exponent.depth + 1)
  | unsigned inner => inner.depth
  | negated _ inner => inner.depth
  | bare inner => inner.depth
  | negative .. => 0
  | number .. => 0
  | positive .. => 0
  | named .. => 0
  | call _ _ _ arguments _ => arguments.depth + 1
  | group _ inner _ => inner.depth + 1
  | last argument => argument.depth
  | further argument _ others => max argument.depth others.depth

/-- How many arguments there are. -/
def count : Phrase .arguments → Nat
  | last _ => 1
  | further _ _ others => others.count + 1

/-- Whether every call has as many arguments as the vocabulary wants for its name. -/
def CallsFit {rule : Rule} (vocabulary : Vocabulary) : Phrase rule → Prop
  | sum first others => first.CallsFit vocabulary ∧ others.CallsFit vocabulary
  | noTerm => True
  | term _ _ _ next others => next.CallsFit vocabulary ∧ others.CallsFit vocabulary
  | product first others => first.CallsFit vocabulary ∧ others.CallsFit vocabulary
  | noFactor => True
  | factor _ _ _ next others => next.CallsFit vocabulary ∧ others.CallsFit vocabulary
  | unraised base => base.CallsFit vocabulary
  | raised base _ exponent => base.CallsFit vocabulary ∧ exponent.CallsFit vocabulary
  | unsigned inner => inner.CallsFit vocabulary
  | negated _ inner => inner.CallsFit vocabulary
  | bare inner => inner.CallsFit vocabulary
  | negative .. => True
  | number .. => True
  | positive .. => True
  | named .. => True
  | call _ name _ arguments _ =>
    arguments.CallsFit vocabulary ∧ arguments.count = vocabulary.arity name
  | group _ inner _ => inner.CallsFit vocabulary
  | last argument => argument.CallsFit vocabulary
  | further argument _ others => argument.CallsFit vocabulary ∧ others.CallsFit vocabulary

/-- Emits a phrase, with the checks of depth and of the number of arguments on the way. -/
def assemble {rule : Rule} : Phrase rule → Assembly → Except ParseError Assembly
  | sum first others, assembly => do
    let assembly ← first.assemble assembly
    others.assemble assembly
  | noTerm, assembly => .ok assembly
  | term sign _ _ next others, assembly => do
    let assembly ← next.assemble assembly
    others.assemble (assembly.emit (.operator sign.symbol))
  | product first others, assembly => do
    let assembly ← first.assemble assembly
    others.assemble assembly
  | noFactor, assembly => .ok assembly
  | factor sign _ _ next others, assembly => do
    let assembly ← next.assemble assembly
    others.assemble (assembly.emit (.operator sign.symbol))
  | unraised base, assembly => base.assemble assembly
  | raised base position exponent, assembly => do
    let assembly ← base.assemble assembly
    let assembly ← assembly.nested position exponent.assemble
    .ok (assembly.emit (.operator Mark.power.symbol))
  | unsigned inner, assembly => inner.assemble assembly
  | negated _ inner, assembly => do
    let assembly ← inner.assemble assembly
    .ok (assembly.emit .negate)
  | bare inner, assembly => inner.assemble assembly
  | negative _ value, assembly => .ok (assembly.emit (.number (-value)))
  | number _ value, assembly => .ok (assembly.emit (.number value))
  | positive _ value, assembly => .ok (assembly.emit (.number value))
  | named _ name, assembly => .ok (assembly.emit (.load name))
  | call position name opening arguments _, assembly => do
    let assembly ← assembly.nested opening arguments.assemble
    emitCall assembly name position arguments.count
  | group opening inner _, assembly => assembly.nested opening inner.assemble
  | last argument, assembly => argument.assemble assembly
  | further argument _ others, assembly => do
    let assembly ← argument.assemble assembly
    others.assemble assembly

/-- A phrase can be emitted exactly if its calls fit and it stays within the nesting limit. -/
theorem emits_assemble (phrase : Phrase rule) :
    Assembly.Emits phrase.assemble (phrase.CallsFit ·) phrase.depth phrase.emission := by
  induction phrase with
  | sum first others ihfirst ihothers => exact ihfirst.andThen ihothers
  | noTerm => exact .done
  | term sign additive position next others ihnext ihothers =>
    exact ihnext.andThen (ihothers.emitThen _)
  | product first others ihfirst ihothers => exact ihfirst.andThen ihothers
  | noFactor => exact .done
  | factor sign multiplicative position next others ihnext ihothers =>
    exact ihnext.andThen (ihothers.emitThen _)
  | unraised base ih => exact ih
  | raised base position exponent ihbase ihexponent =>
    exact ihbase.andThen ((ihexponent.nested position).andEmit _)
  | unsigned inner ih => exact ih
  | negated position inner ih => exact ih.andEmit .negate
  | bare inner ih => exact ih
  | negative position value => exact .emit _
  | number position value => exact .emit _
  | positive position value => exact .emit _
  | named position name => exact .emit _
  | call position name opening arguments closing ih =>
    intro assembly extended hdepth
    simpa [assemble, CallsFit, depth, emission] using
      (ih.nested opening).andThen (emits_emitCall name position arguments.count) hdepth
  | group opening inner closing ih => exact ih.nested opening
  | last argument ih => exact ih
  | further argument comma others ihargument ihothers => exact ihargument.andThen ihothers

end Phrase

end Grammar

end BeamCalc
