import BeamCalc.Grammar

/-!
# Readings without bounds

The rules of the grammar return the tokens they leave together with a proof that something was
read. Here they are stated without these proofs: `readSum` and its companions take an assembly and
the tokens from the beginning of the phrase on, and answer with the assembly and the tokens that
are left. Each has one equation for each way its rule can go on, and a lemma that less is left than
there was.
-/

set_option autoImplicit false
set_option relaxedAutoImplicit false

namespace BeamCalc.Grammar

/-- The result of a rule without the bound on the tokens that are left. -/
abbrev Reading.Plain := Except ParseError (Assembly × List PlacedToken)

/-- Forgets that something was read. -/
def Reading.plain {bound : Nat} (reading : Reading bound) : Reading.Plain :=
  reading.map fun (assembly, rest) ↦ (assembly, rest.val)

/-- Less is left than the bound. -/
theorem length_lt_of_plain {bound : Nat} {reading : Reading bound} {assembly : Assembly}
    {rest : List PlacedToken} (h : reading.plain = .ok (assembly, rest)) : rest.length < bound := by
  cases reading with
  | error error => cases h
  | ok read =>
    cases h
    exact read.2.property

theorem length_lt_add_one (tokens : List PlacedToken) : tokens.length < tokens.length + 1 :=
  Nat.lt_succ_self tokens.length

section

variable (assembly : Assembly) (tokens : List PlacedToken)

def readSum : Reading.Plain := (sum assembly tokens).plain

def readFurtherTerms : Reading.Plain :=
  (sumTail assembly tokens (length_lt_add_one tokens)).plain

def readProduct : Reading.Plain := (product assembly tokens).plain

def readFurtherFactors : Reading.Plain :=
  (productTail assembly tokens (length_lt_add_one tokens)).plain

def readPower : Reading.Plain := (power assembly tokens).plain

def readOperand : Reading.Plain := (operand assembly tokens).plain

def readPrimary : Reading.Plain := (primary assembly tokens).plain

/-- Reads the number that touches the sign at `position`. -/
def readSigned (sign : Mark) (position : Nat) : List PlacedToken → Reading.Plain
  | ⟨.number value, start⟩ :: rest =>
    if start = position + 1 then
      .ok (assembly.emit (.number (if sign = .minus then -value else value)), rest)
    else .error ⟨.unexpectedToken (String.singleton sign.symbol), position⟩
  | _ => .error ⟨.unexpectedToken (String.singleton sign.symbol), position⟩

def readArguments (opening count : Nat) :
    Except ParseError (Nat × Assembly × List PlacedToken) :=
  (arguments opening count assembly tokens (length_lt_add_one tokens)).map
    fun (count, assembly, rest) ↦ (count, assembly, rest.val)

/-- Reads what follows the base of a power. -/
def readExponent : List PlacedToken → Reading.Plain
  | ⟨.mark .power, position⟩ :: rest => do
    let deeper ← assembly.descend position
    let (deeper, rest) ← readPower deeper rest
    .ok (deeper.ascend.emit (.operator Mark.power.symbol), rest)
  | rest => .ok (assembly, rest)

/-- Reads the bracket that closes the one at `opening`. -/
def readClosing (opening : Nat) : List PlacedToken → Except ParseError (List PlacedToken)
  | ⟨.mark .closeParen, _⟩ :: rest => .ok rest
  | _ => .error ⟨.unclosedParen, opening⟩

/-- Reads what follows argument number `count` of a call. -/
def readFurtherArguments (opening count : Nat) :
    List PlacedToken → Except ParseError (Nat × Assembly × List PlacedToken)
  | ⟨.mark .comma, _⟩ :: rest => readArguments assembly rest opening (count + 1)
  | ⟨.mark .closeParen, _⟩ :: rest => .ok (count, assembly, rest)
  | _ => .error ⟨.unclosedParen, opening⟩

end

/-! ### The bound does not matter -/

theorem plain_sumTail {bound : Nat} (assembly : Assembly) (tokens : List PlacedToken)
    (fits : tokens.length < bound) :
    (sumTail assembly tokens fits).plain = readFurtherTerms assembly tokens := by
  unfold readFurtherTerms
  rw [sumTail.eq_def assembly tokens fits,
    sumTail.eq_def assembly tokens (length_lt_add_one tokens)]
  match tokens with
  | [] => rfl
  | ⟨.number _, _⟩ :: _ => rfl
  | ⟨.name _, _⟩ :: _ => rfl
  | ⟨.mark sign, position⟩ :: rest =>
    dsimp only
    split
    · cases product assembly rest with
      | error error => rfl
      | ok read =>
        obtain ⟨extended, left, shorter⟩ := read
        exact (plain_sumTail _ left _).trans (plain_sumTail _ left _).symm
    · rfl
termination_by tokens.length
decreasing_by all_goals (simp only [List.length_cons]; omega)

theorem plain_productTail {bound : Nat} (assembly : Assembly) (tokens : List PlacedToken)
    (fits : tokens.length < bound) :
    (productTail assembly tokens fits).plain = readFurtherFactors assembly tokens := by
  unfold readFurtherFactors
  rw [productTail.eq_def assembly tokens fits,
    productTail.eq_def assembly tokens (length_lt_add_one tokens)]
  match tokens with
  | [] => rfl
  | ⟨.number _, _⟩ :: _ => rfl
  | ⟨.name _, _⟩ :: _ => rfl
  | ⟨.mark sign, position⟩ :: rest =>
    dsimp only
    split
    · cases power assembly rest with
      | error error => rfl
      | ok read =>
        obtain ⟨extended, left, shorter⟩ := read
        exact (plain_productTail _ left _).trans (plain_productTail _ left _).symm
    · rfl
termination_by tokens.length
decreasing_by all_goals (simp only [List.length_cons]; omega)

theorem plain_signedNumber {bound : Nat} (assembly : Assembly) (sign : Mark) (position : Nat)
    (tokens : List PlacedToken) (fits : tokens.length ≤ bound) :
    (signedNumber assembly sign position tokens fits).plain =
      readSigned assembly sign position tokens := by
  match tokens with
  | [] => rfl
  | ⟨.number value, start⟩ :: rest =>
    simp only [signedNumber, readSigned]
    split <;> rfl
  | ⟨.name _, _⟩ :: _ => rfl
  | ⟨.mark _, _⟩ :: _ => rfl

theorem plain_arguments {bound : Nat} (assembly : Assembly) (tokens : List PlacedToken)
    (opening count : Nat) (fits : tokens.length < bound) :
    ((arguments opening count assembly tokens fits).map fun (count, assembly, rest) ↦
      (count, assembly, rest.val)) = readArguments assembly tokens opening count := by
  unfold readArguments
  rw [arguments.eq_def opening count assembly tokens fits,
    arguments.eq_def opening count assembly tokens (length_lt_add_one tokens)]
  cases sum assembly tokens with
  | error error => rfl
  | ok read =>
    obtain ⟨extended, left, shorter⟩ := read
    match left with
    | [] => rfl
    | ⟨.number _, _⟩ :: _ => rfl
    | ⟨.name _, _⟩ :: _ => rfl
    | ⟨.mark sign, position⟩ :: rest =>
      cases sign with
      | comma => exact (plain_arguments _ rest _ _ _).trans (plain_arguments _ rest _ _ _).symm
      | _ => rfl
termination_by tokens.length
decreasing_by all_goals (simp only [List.length_cons] at shorter; omega)

/-! ### The rules -/

variable (assembly : Assembly)

theorem readSum_eq (tokens : List PlacedToken) :
    readSum assembly tokens =
      readProduct assembly tokens >>= fun (assembly, rest) ↦ readFurtherTerms assembly rest := by
  rw [readSum, readProduct, sum]
  cases product assembly tokens with
  | error error => rfl
  | ok read => exact plain_sumTail _ _ _

/-- A sum goes on with a sign and another term. -/
theorem readFurtherTerms_sign {sign : Mark} (hsign : sign.isAdditive) (position : Nat)
    (tokens : List PlacedToken) :
    readFurtherTerms assembly (⟨.mark sign, position⟩ :: tokens) =
      readProduct assembly tokens >>= fun (assembly, rest) ↦
        readFurtherTerms (assembly.emit (.operator sign.symbol)) rest := by
  rw [readFurtherTerms, readProduct, sumTail, if_pos hsign]
  cases product assembly tokens with
  | error error => rfl
  | ok read => exact plain_sumTail _ _ _

/-- A sum ends before everything else. -/
theorem readFurtherTerms_end {tokens : List PlacedToken}
    (hend : ∀ sign position rest, tokens = ⟨.mark sign, position⟩ :: rest → ¬sign.isAdditive) :
    readFurtherTerms assembly tokens = .ok (assembly, tokens) := by
  rw [readFurtherTerms, sumTail.eq_def]
  match tokens with
  | [] => rfl
  | ⟨.number _, _⟩ :: _ => rfl
  | ⟨.name _, _⟩ :: _ => rfl
  | ⟨.mark sign, position⟩ :: rest =>
    dsimp only
    rw [if_neg (hend sign position rest rfl)]
    rfl

theorem readProduct_eq (tokens : List PlacedToken) :
    readProduct assembly tokens =
      readPower assembly tokens >>= fun (assembly, rest) ↦ readFurtherFactors assembly rest := by
  rw [readProduct, readPower, product]
  cases power assembly tokens with
  | error error => rfl
  | ok read => exact plain_productTail _ _ _

/-- A product goes on with a sign and another factor. -/
theorem readFurtherFactors_sign {sign : Mark} (hsign : sign.isMultiplicative) (position : Nat)
    (tokens : List PlacedToken) :
    readFurtherFactors assembly (⟨.mark sign, position⟩ :: tokens) =
      readPower assembly tokens >>= fun (assembly, rest) ↦
        readFurtherFactors (assembly.emit (.operator sign.symbol)) rest := by
  rw [readFurtherFactors, readPower, productTail, if_pos hsign]
  cases power assembly tokens with
  | error error => rfl
  | ok read => exact plain_productTail _ _ _

/-- A product ends before everything else. -/
theorem readFurtherFactors_end {tokens : List PlacedToken}
    (hend : ∀ sign position rest, tokens = ⟨.mark sign, position⟩ :: rest →
      ¬sign.isMultiplicative) :
    readFurtherFactors assembly tokens = .ok (assembly, tokens) := by
  rw [readFurtherFactors, productTail.eq_def]
  match tokens with
  | [] => rfl
  | ⟨.number _, _⟩ :: _ => rfl
  | ⟨.name _, _⟩ :: _ => rfl
  | ⟨.mark sign, position⟩ :: rest =>
    dsimp only
    rw [if_neg (hend sign position rest rfl)]
    rfl

theorem readPower_eq (tokens : List PlacedToken) :
    readPower assembly tokens =
      readOperand assembly tokens >>= fun (assembly, rest) ↦ readExponent assembly rest := by
  rw [readPower, readOperand, power.eq_def]
  cases operand assembly tokens with
  | error error => rfl
  | ok read =>
    obtain ⟨extended, left, shorter⟩ := read
    match left with
    | [] => rfl
    | ⟨.number _, _⟩ :: _ => rfl
    | ⟨.name _, _⟩ :: _ => rfl
    | ⟨.mark sign, position⟩ :: rest =>
      cases sign with
      | power =>
        change Reading.plain (extended.descend position >>= _) = extended.descend position >>= _
        cases extended.descend position with
        | error error => rfl
        | ok deeper =>
          change Reading.plain (power deeper rest >>= _) = readPower deeper rest >>= _
          rw [readPower]
          cases power deeper rest <;> rfl
      | _ => rfl

/-- A power ends before everything but `^`. -/
theorem readExponent_end {tokens : List PlacedToken}
    (hend : ∀ position rest, tokens ≠ ⟨.mark .power, position⟩ :: rest) :
    readExponent assembly tokens = .ok (assembly, tokens) := by
  rw [readExponent]
  exact hend

/-- An operand that begins with a minus is a negation. -/
theorem readOperand_minus (position : Nat) (tokens : List PlacedToken) :
    readOperand assembly (⟨.mark .minus, position⟩ :: tokens) =
      readPrimary assembly tokens >>= fun (assembly, rest) ↦
        .ok (assembly.emit .negate, rest) := by
  rw [readOperand, readPrimary, operand]
  cases primary assembly tokens <;> rfl

theorem readOperand_unsigned {tokens : List PlacedToken}
    (hunsigned : ∀ position rest, tokens ≠ ⟨.mark .minus, position⟩ :: rest) :
    readOperand assembly tokens = readPrimary assembly tokens := by
  rw [readOperand, readPrimary, operand.eq_def]
  match tokens with
  | [] => rfl
  | ⟨.number _, _⟩ :: _ => rfl
  | ⟨.name _, _⟩ :: _ => rfl
  | ⟨.mark sign, position⟩ :: rest =>
    cases sign with
    | minus => exact absurd rfl (hunsigned position rest)
    | _ => rfl

theorem readPrimary_nil :
    readPrimary assembly [] = .error ⟨.unexpectedEnd, assembly.textEnd⟩ := by
  rw [readPrimary, primary]
  rfl

theorem readPrimary_number (value : Float) (position : Nat) (tokens : List PlacedToken) :
    readPrimary assembly (⟨.number value, position⟩ :: tokens) =
      .ok (assembly.emit (.number value), tokens) := by
  rw [readPrimary, primary]
  rfl

/-- A name before an opening bracket is a call. -/
theorem readPrimary_call (name : String) (position opening : Nat) (tokens : List PlacedToken) :
    readPrimary assembly (⟨.name name, position⟩ :: ⟨.mark .openParen, opening⟩ :: tokens) = (do
      let deeper ← assembly.descend opening
      let (count, deeper, rest) ← readArguments deeper tokens opening 1
      let assembly ← emitCall deeper.ascend name position count
      .ok (assembly, rest)) := by
  rw [readPrimary, primary]
  cases assembly.descend opening with
  | error error => rfl
  | ok deeper =>
    change Reading.plain (arguments opening 1 deeper tokens _ >>= _) =
      readArguments deeper tokens opening 1 >>= _
    rw [readArguments]
    cases arguments opening 1 deeper tokens (length_lt_add_one tokens) with
    | error error => rfl
    | ok read =>
      obtain ⟨count, deeper, rest, shorter⟩ := read
      change Reading.plain (emitCall deeper.ascend name position count >>= _) =
        emitCall deeper.ascend name position count >>= _
      cases emitCall deeper.ascend name position count <;> rfl

theorem readPrimary_name (name : String) (position : Nat) {tokens : List PlacedToken}
    (hplain : ∀ opening rest, tokens ≠ ⟨.mark .openParen, opening⟩ :: rest) :
    readPrimary assembly (⟨.name name, position⟩ :: tokens) =
      .ok (assembly.emit (.load name), tokens) := by
  rw [readPrimary, primary]
  · rfl
  · intro opening rest h
    exact hplain opening rest h

theorem readPrimary_group (opening : Nat) (tokens : List PlacedToken) :
    readPrimary assembly (⟨.mark .openParen, opening⟩ :: tokens) = (do
      let deeper ← assembly.descend opening
      let (deeper, left) ← readSum deeper tokens
      let rest ← readClosing opening left
      .ok (deeper.ascend, rest)) := by
  rw [readPrimary, primary]
  cases assembly.descend opening with
  | error error => rfl
  | ok deeper =>
    change Reading.plain (sum deeper tokens >>= _) = readSum deeper tokens >>= _
    rw [readSum]
    cases sum deeper tokens with
    | error error => rfl
    | ok read =>
      obtain ⟨deeper, left, shorter⟩ := read
      cases left with
      | nil => rfl
      | cons placed rest =>
        obtain ⟨token, position⟩ := placed
        cases token with
        | number | name => rfl
        | mark sign => cases sign <;> rfl

/-- A sign before a primary belongs to a number. -/
theorem readPrimary_sign {sign : Mark} (hsign : sign.isAdditive) (position : Nat)
    (tokens : List PlacedToken) :
    readPrimary assembly (⟨.mark sign, position⟩ :: tokens) =
      readSigned assembly sign position tokens := by
  cases sign with
  | plus =>
    rw [readPrimary, primary]
    exact plain_signedNumber _ _ _ _ _
  | minus =>
    rw [readPrimary, primary]
    exact plain_signedNumber _ _ _ _ _
  | _ => cases hsign

/-- No other mark begins a primary. -/
theorem readPrimary_mark {sign : Mark} (hsign : sign.isAdditive = false)
    (hopen : sign ≠ .openParen) (position : Nat) (tokens : List PlacedToken) :
    readPrimary assembly (⟨.mark sign, position⟩ :: tokens) =
      .error ⟨.unexpectedToken (Token.mark sign).text, position⟩ := by
  rw [readPrimary, primary.eq_def]
  cases sign with
  | plus | minus => cases hsign
  | openParen => exact absurd rfl hopen
  | _ => rfl

theorem readArguments_eq (tokens : List PlacedToken) (opening count : Nat) :
    readArguments assembly tokens opening count =
      readSum assembly tokens >>= fun (assembly, rest) ↦
        readFurtherArguments assembly opening count rest := by
  rw [readArguments, readSum, arguments.eq_def]
  cases sum assembly tokens with
  | error error => rfl
  | ok read =>
    obtain ⟨extended, left, shorter⟩ := read
    match left with
    | [] => rfl
    | ⟨.number _, _⟩ :: _ => rfl
    | ⟨.name _, _⟩ :: _ => rfl
    | ⟨.mark sign, position⟩ :: rest =>
      cases sign with
      | comma => exact plain_arguments _ rest _ _ _
      | _ => rfl

/-! ### Something is read -/

section

variable {assembly extended : Assembly} {tokens rest : List PlacedToken}

theorem length_lt_of_readSum (h : readSum assembly tokens = .ok (extended, rest)) :
    rest.length < tokens.length :=
  length_lt_of_plain h

theorem length_lt_of_readProduct (h : readProduct assembly tokens = .ok (extended, rest)) :
    rest.length < tokens.length :=
  length_lt_of_plain h

theorem length_lt_of_readPower (h : readPower assembly tokens = .ok (extended, rest)) :
    rest.length < tokens.length :=
  length_lt_of_plain h

theorem length_lt_of_readOperand (h : readOperand assembly tokens = .ok (extended, rest)) :
    rest.length < tokens.length :=
  length_lt_of_plain h

end

end BeamCalc.Grammar

namespace BeamCalc.Program

/-- The program of an assembly, if no tokens are left. -/
def ofReading : Assembly × List PlacedToken → Except ParseError Program
  | (assembly, []) => .ok assembly.program
  | (_, ⟨token, position⟩ :: _) => .error ⟨.trailingTokens token.text, position⟩

/-- A program is read as a sum that leaves nothing. -/
theorem ofTokens_eq (vocabulary : Vocabulary) (textEnd : Nat) {tokens : List PlacedToken}
    (hnonempty : tokens ≠ []) :
    ofTokens vocabulary textEnd tokens =
      Grammar.readSum { vocabulary, textEnd } tokens >>= ofReading := by
  have hempty : tokens.isEmpty = false := by simpa using hnonempty
  rw [ofTokens, Grammar.readSum, hempty]
  cases Grammar.sum { vocabulary, textEnd } tokens with
  | error error => rfl
  | ok read =>
    obtain ⟨assembly, rest, shorter⟩ := read
    cases rest <;> rfl

end BeamCalc.Program
