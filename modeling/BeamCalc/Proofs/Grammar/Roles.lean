import BeamCalc.Proofs.Grammar.Emission
import BeamCalc.Proofs.Instruction.Names
import BeamCalc.Proofs.Token.Likeness

/-!
# What becomes of the tokens

Each token of an expression has a role, which shows from the tokens around it: a number, negative
after a minus that is folded into it; a name, or a call where a bracket follows; an operator that
joins what stands before and after it; the negation of an operand; a sign that belongs to the number
it touches; or a bracket or a comma (`Place.roles`). All but the last two stand for one instruction.

A program is made of the instructions that its tokens stand for (`Phrase.reorders`): operations come
later in it, behind their operands, and numbers and names keep their order. So nothing is lost or
doubled (`Program.ofText_conserves_tokens`).
-/

set_option autoImplicit false
set_option relaxedAutoImplicit false

namespace BeamCalc

/-! ### Roles -/

/-- What a token is in an expression. -/
inductive Role where
  /-- A number, with the sign that is folded into it. -/
  | number (value : Float)
  /-- A name without arguments. -/
  | name (text : String)
  /-- A name with arguments. -/
  | call (name : String)
  /-- An operator between two operands. -/
  | join (symbol : Char)
  /-- A minus before an operand. -/
  | negation
  /-- A sign that belongs to the number after it. -/
  | sign (mark : Mark)
  /-- A bracket or a comma. -/
  | punctuation (mark : Mark)
  deriving Repr, DecidableEq

/-- Where in an expression a token stands. -/
inductive Place where
  /-- At the beginning of an operand. -/
  | operand
  /-- Behind the minus that negates an operand. -/
  | negated
  /-- Behind a minus that belongs to a number. -/
  | folded
  /-- Behind an operand. -/
  | joint
  deriving Repr, DecidableEq

namespace Role

/-- The instruction that a token stands for. -/
def instruction? : Role → Option Instruction
  | number value => some (.number value)
  | name text => some (.load text)
  | call callee => some (.function callee)
  | join symbol => some (.operator symbol)
  | negation => some .negate
  | sign _ | punctuation _ => none

/-- The number or the name that a token is, as an instruction. -/
def operand? : Role → Option Instruction
  | number value => some (.number value)
  | name text => some (.load text)
  | _ => none

/-- The name of a variable or a constant. -/
def name? : Role → Option String
  | name text => some text
  | _ => none

/-- The name of a function. -/
def callee? : Role → Option String
  | call callee => some callee
  | _ => none

/-- Whether a token is a sign that belongs to a number. -/
def isSign : Role → Bool
  | sign _ => true
  | _ => false

/-- Where the token after one stands. -/
def place : Role → Place
  | number _ | name _ | call _ | punctuation .closeParen => .joint
  | join _ | punctuation _ => .operand
  | negation => .negated
  | sign .minus => .folded
  | sign _ => .operand

end Role

/-- Whether tokens begin with an opening bracket. -/
def opensBracket : List PlacedToken → Bool
  | ⟨.mark .openParen, _⟩ :: _ => true
  | _ => false

/-- Whether a sign may belong to a number at a place: a minus only behind another one, and a plus
only where no operand stands before it. -/
def Place.admits : Place → Mark → Bool
  | .operand, .plus | .negated, .plus | .negated, .minus => true
  | _, _ => false

/-- The role of a token at a place, before other tokens. -/
def Place.role (place : Place) (placed : PlacedToken) (after : List PlacedToken) : Role :=
  match placed.token with
  | .number value => .number (if place = .folded then -value else value)
  | .name name => if opensBracket after then .call name else .name name
  | .mark mark =>
    if !mark.isOperator then .punctuation mark
    else if place.admits mark && touchesNumber placed.position after then .sign mark
    else if place = .operand ∧ mark = .minus then .negation
    else .join mark.symbol

/-- The roles of the tokens from a place on. -/
def Place.roles (place : Place) : List PlacedToken → List Role
  | [] => []
  | placed :: after =>
    place.role placed after :: (place.role placed after).place.roles after

/-- Whether a token is a bracket or a comma. -/
def Token.isPunctuation : Token → Bool
  | mark sign => !sign.isOperator
  | _ => false

/-- A token stands for one instruction, or it is a bracket or a comma, or else a sign that belongs
to a number. -/
theorem Place.count_role (place : Place) (placed : PlacedToken) (after : List PlacedToken) :
    (if (place.role placed after).instruction?.isSome then 1 else 0) +
      (if placed.token.isPunctuation then 1 else 0) +
      (if (place.role placed after).isSign then 1 else 0) = 1 := by
  obtain ⟨token, position⟩ := placed
  cases token with
  | number value => rfl
  | name name => cases hcall : opensBracket after <;> simp [role, hcall] <;> rfl
  | mark mark =>
    simp only [role, Token.isPunctuation]
    split_ifs <;> simp_all [Role.instruction?, Role.isSign]

/-! ### The roles in a phrase -/

namespace Grammar

/-- Where a phrase of a rule begins. -/
def Rule.BeginsAt : Rule → Place → Prop
  | furtherTerms, place | furtherFactors, place => place = .joint
  | negatable, place => place = .negated
  | primary, place => place = .operand ∨ place = .negated
  | sum, place | product, place | power, place | operand, place | arguments, place =>
    place = .operand

namespace Phrase

/-- The roles of the tokens of a phrase. -/
def roles {rule : Rule} : Phrase rule → List Role
  | sum first others => first.roles ++ others.roles
  | noTerm => []
  | term sign _ _ next others => .join sign.symbol :: (next.roles ++ others.roles)
  | product first others => first.roles ++ others.roles
  | noFactor => []
  | factor sign _ _ next others => .join sign.symbol :: (next.roles ++ others.roles)
  | unraised base => base.roles
  | raised base _ exponent => base.roles ++ .join Mark.power.symbol :: exponent.roles
  | unsigned inner => inner.roles
  | negated _ inner => .negation :: inner.roles
  | bare inner => inner.roles
  | negative _ value => [.sign .minus, .number (-value)]
  | number _ value => [.number value]
  | positive _ value => [.sign .plus, .number value]
  | named _ name => [.name name]
  | call _ name _ arguments _ =>
    .call name :: .punctuation .openParen :: (arguments.roles ++ [.punctuation .closeParen])
  | group _ inner _ => .punctuation .openParen :: (inner.roles ++ [.punctuation .closeParen])
  | last argument => argument.roles
  | further argument _ others => argument.roles ++ .punctuation .comma :: others.roles

end Phrase

end Grammar

/-- An operator behind an operand joins. -/
theorem Place.roles_joint {sign : Mark} (hsign : sign.isOperator) (position : Nat)
    (tokens : List PlacedToken) :
    Place.joint.roles (⟨.mark sign, position⟩ :: tokens) =
      .join sign.symbol :: Place.operand.roles tokens := by
  have hrole : Place.joint.role ⟨.mark sign, position⟩ tokens = .join sign.symbol := by
    simp [role, admits, hsign]
  rw [roles, hrole]
  rfl

/-- A name before tokens without a bracket is no call. -/
theorem Place.roles_name (place : Place) (name : String) (position : Nat)
    {tokens : List PlacedToken}
    (hplain : ∀ opening rest, tokens ≠ ⟨.mark .openParen, opening⟩ :: rest) :
    place.roles (⟨.name name, position⟩ :: tokens) = .name name :: Place.joint.roles tokens := by
  have hopens : opensBracket tokens = false := by
    rw [opensBracket.eq_def]
    split
    · rename_i opening rest
      exact absurd rfl (hplain opening rest)
    · rfl
  have hrole : place.role ⟨.name name, position⟩ tokens = .name name := by
    simp [role, hopens]
  rw [roles, hrole]
  rfl

/-- A sign that a place admits belongs to the number that it touches. -/
theorem Place.roles_sign {place : Place} {sign : Mark} (hadmits : place.admits sign)
    (position : Nat) (value : Float) (tokens : List PlacedToken) :
    place.roles (⟨.mark sign, position⟩ :: ⟨.number value, position + 1⟩ :: tokens) =
      .sign sign :: .number (if sign = .minus then -value else value) ::
        Place.joint.roles tokens := by
  cases sign with
  | plus | minus => simp [roles, role, hadmits, touchesNumber, Role.place, Mark.isOperator]
  | _ => cases place <;> cases hadmits

namespace Grammar.Phrase

variable {rule : Rule}

/-- The tokens of a phrase have the roles that it gives them, and an operand ends with them. -/
theorem roles_tokens (phrase : Phrase rule) {place : Place} {rest : List PlacedToken}
    (hplace : rule.BeginsAt place) (hends : phrase.EndsBefore rest) :
    place.roles (phrase.tokens ++ rest) = phrase.roles ++ Place.joint.roles rest := by
  induction phrase generalizing place rest with
  | sum first others ihfirst ihothers =>
    obtain ⟨hfirst, hothers⟩ := endsBefore_sum_iff.mp hends
    rw [tokens, List.append_assoc, ihfirst hplace hfirst, ihothers rfl hothers, roles,
      List.append_assoc]
  | product first others ihfirst ihothers =>
    obtain ⟨hfirst, hothers⟩ := endsBefore_product_iff.mp hends
    rw [tokens, List.append_assoc, ihfirst hplace hfirst, ihothers rfl hothers, roles,
      List.append_assoc]
  | noTerm | noFactor =>
    obtain rfl := hplace
    rfl
  | term sign additive position next others ihnext ihothers =>
    obtain rfl := hplace
    obtain ⟨hnext, hothers⟩ := endsBefore_term_iff.mp hends
    rw [tokens, List.cons_append, List.append_assoc,
      Place.roles_joint (Mark.isOperator_of_isAdditive additive), ihnext rfl hnext,
      ihothers rfl hothers, roles, List.cons_append, List.append_assoc]
  | factor sign multiplicative position next others ihnext ihothers =>
    obtain rfl := hplace
    obtain ⟨hnext, hothers⟩ := endsBefore_factor_iff.mp hends
    rw [tokens, List.cons_append, List.append_assoc,
      Place.roles_joint (Mark.isOperator_of_isMultiplicative multiplicative), ihnext rfl hnext,
      ihothers rfl hothers, roles, List.cons_append, List.append_assoc]
  | unraised base ih => exact ih hplace (endsBefore_unraised_iff.mp hends).1
  | raised base position exponent ihbase ihexponent =>
    rw [tokens, List.append_assoc, List.cons_append, ihbase hplace (endsBefore_power base position),
      Place.roles_joint rfl, ihexponent rfl (endsBefore_raised_iff.mp hends), roles,
      List.append_assoc, List.cons_append]
  | unsigned inner ih => exact ih (Or.inl hplace) hends
  | negated position inner ih =>
    obtain rfl := hplace
    exact congrArg (Role.negation :: ·) (ih rfl (endsBefore_negated_iff.mp hends))
  | bare inner ih => exact ih (Or.inr hplace) hends
  | negative position value =>
    obtain rfl := hplace
    exact Place.roles_sign rfl position value rest
  | number position value => rcases hplace with rfl | rfl <;> rfl
  | positive position value =>
    rcases hplace with rfl | rfl <;> exact Place.roles_sign rfl position value rest
  | named position name =>
    exact Place.roles_name place name position (endsBefore_named_iff.mp hends)
  | call position name opening arguments closing ih =>
    have hclosed : arguments.EndsBefore (⟨.mark .closeParen, closing⟩ :: rest) :=
      .mark closing rfl (by simp)
    rw [tokens, roles, List.cons_append, List.cons_append, List.append_assoc]
    change Role.call name :: .punctuation .openParen :: Place.operand.roles _ = _
    rw [List.singleton_append, ih rfl hclosed]
    simp only [List.cons_append, List.append_assoc]
    rfl
  | group opening inner closing ih =>
    rw [tokens, roles, List.cons_append, List.append_assoc]
    change Role.punctuation .openParen :: Place.operand.roles _ = _
    rw [List.singleton_append, ih rfl (endsBefore_closeParen inner closing)]
    simp only [List.cons_append, List.append_assoc]
    rfl
  | last argument ih => exact ih hplace (endsBefore_of_last hends)
  | further argument comma others ihargument ihothers =>
    rw [tokens, List.append_assoc, List.cons_append,
      ihargument hplace (endsBefore_comma argument comma), roles, List.append_assoc]
    change _ ++ Role.punctuation .comma :: Place.operand.roles _ = _
    rw [ihothers rfl (endsBefore_of_further hends)]
    rfl

end Grammar.Phrase

/-! ### The instructions in another order -/

namespace Instruction

/-- Whether an instruction is a number or a name. -/
def isOperand : Instruction → Bool
  | number _ | load _ => true
  | _ => false

/-- The name of the function that an instruction applies. -/
def callee? : Instruction → Option String
  | function name => some name
  | _ => none

end Instruction

/-- Instructions of which some come later, but the numbers and names in the same order. -/
structure Reorders (source emitted : List Instruction) : Prop where
  perm : source.Perm emitted
  operands : source.filter Instruction.isOperand = emitted.filter Instruction.isOperand

namespace Reorders

variable {source source' emitted emitted' : List Instruction} {instruction : Instruction}

theorem refl (source : List Instruction) : Reorders source source :=
  ⟨.refl _, rfl⟩

theorem append (hfirst : Reorders source emitted) (hsecond : Reorders source' emitted') :
    Reorders (source ++ source') (emitted ++ emitted') where
  perm := hfirst.perm.append hsecond.perm
  operands := by rw [List.filter_append, List.filter_append, hfirst.operands, hsecond.operands]

/-- An operation may come later. -/
theorem delay (hinstruction : instruction.isOperand = false) (hfirst : Reorders source emitted)
    (hsecond : Reorders source' emitted') :
    Reorders (instruction :: (source ++ source')) (emitted ++ instruction :: emitted') where
  perm := ((hfirst.perm.append hsecond.perm).cons instruction).trans List.perm_middle.symm
  operands := by
    simp [hinstruction, hfirst.operands, hsecond.operands]

theorem delay_last (hinstruction : instruction.isOperand = false) (h : Reorders source emitted) :
    Reorders (instruction :: source) (emitted ++ [instruction]) := by
  have hdelayed := h.delay hinstruction (.refl [])
  rwa [List.append_nil] at hdelayed

end Reorders

/-- A bracket behind other tokens stands for no instruction. -/
theorem Role.instructions_closed (inner : List Role) (bracket : Mark) :
    (inner ++ [punctuation bracket]).filterMap instruction? = inner.filterMap instruction? := by
  simp [instruction?]

/-- A phrase emits the instructions that its tokens stand for. -/
theorem Grammar.Phrase.reorders {rule : Rule} (phrase : Phrase rule) :
    Reorders (phrase.roles.filterMap Role.instruction?) phrase.emission := by
  induction phrase with
  | sum first others ihfirst ihothers | product first others ihfirst ihothers =>
    rw [roles, List.filterMap_append]
    exact ihfirst.append ihothers
  | noTerm | noFactor | negative | number | positive | named => exact .refl _
  | term sign additive position next others ihnext ihothers
  | factor sign multiplicative position next others ihnext ihothers =>
    rw [roles, List.filterMap_cons, List.filterMap_append]
    exact ihnext.delay rfl ihothers
  | unraised base ih | unsigned base ih | bare base ih | last base ih => exact ih
  | raised base position exponent ihbase ihexponent =>
    rw [roles, List.filterMap_append, List.filterMap_cons]
    exact ihbase.append (ihexponent.delay_last rfl)
  | negated position inner ih =>
    rw [roles, List.filterMap_cons]
    exact ih.delay_last rfl
  | call position name opening arguments closing ih =>
    rw [← Role.instructions_closed _ .closeParen] at ih
    exact ih.delay_last rfl
  | group opening inner closing ih =>
    rw [← Role.instructions_closed _ .closeParen] at ih
    exact ih
  | further argument comma others ihargument ihothers =>
    rw [roles, List.filterMap_append]
    exact ihargument.append ihothers

/-! ### What becomes of the tokens of a text -/

namespace Role

/-- The operands among the instructions that roles stand for. -/
theorem filter_isOperand_instructions (roles : List Role) :
    (roles.filterMap instruction?).filter Instruction.isOperand = roles.filterMap operand? := by
  rw [List.filter_filterMap]
  refine congrArg (roles.filterMap ·) (funext fun role ↦ ?_)
  cases role <;> rfl

/-- The functions among the instructions that roles stand for. -/
theorem filterMap_callee?_instructions (roles : List Role) :
    (roles.filterMap instruction?).filterMap Instruction.callee? = roles.filterMap callee? := by
  rw [List.filterMap_filterMap]
  refine congrArg (roles.filterMap ·) (funext fun role ↦ ?_)
  cases role <;> rfl

end Role

/-- The names among instructions are those among the operands. -/
theorem Instruction.filterMap_reads?_operands (instructions : List Instruction) :
    (instructions.filter isOperand).filterMap reads? = instructions.filterMap reads? := by
  rw [List.filterMap_filter]
  refine congrArg (instructions.filterMap ·) (funext fun instruction ↦ ?_)
  cases instruction <;> rfl

theorem Role.filterMap_reads?_operands (roles : List Role) :
    (roles.filterMap operand?).filterMap Instruction.reads? = roles.filterMap name? := by
  rw [List.filterMap_filterMap]
  refine congrArg (roles.filterMap ·) (funext fun role ↦ ?_)
  cases role <;> rfl

/-- Every token is a bracket, a comma or a sign of a number, or stands for one instruction. -/
theorem Place.length_instructions (place : Place) (tokens : List PlacedToken) :
    ((place.roles tokens).filterMap Role.instruction?).length +
      tokens.countP (fun placed ↦ placed.token.isPunctuation) +
      (place.roles tokens).countP Role.isSign = tokens.length := by
  induction tokens generalizing place with
  | nil => rfl
  | cons placed after ih =>
    have hafter := ih (place.role placed after).place
    have hplaced := place.count_role placed after
    rw [List.length_filterMap_eq_countP] at hafter ⊢
    rw [roles, List.countP_cons, List.countP_cons, List.countP_cons, List.length_cons]
    omega

namespace Program

variable {vocabulary : Vocabulary} {text : String} {program : Program}

/-- The operands of a program are the numbers of its text, with the signs that are folded into them,
and the names without arguments, in the order of the text. Its functions are the names with
arguments, and all its instructions are those that the tokens stand for, each once. So brackets,
commas and folded signs are all that a program lacks, and its names are those of the text, in the
order in which they first occur there. -/
theorem ofText_conserves_tokens (h : ofText vocabulary text = .ok program) :
    ∃ tokens roles, Token.ofText text = .ok tokens ∧ Place.operand.roles tokens = roles ∧
      program.instructions.filter Instruction.isOperand = roles.filterMap Role.operand? ∧
      (program.instructions.filterMap Instruction.callee?).Perm (roles.filterMap Role.callee?) ∧
      program.instructions.Perm (roles.filterMap Role.instruction?) ∧
      program.instructions.length + tokens.countP (fun placed ↦ placed.token.isPunctuation) +
        roles.countP Role.isSign = tokens.length ∧
      FirstOccurrences (roles.filterMap Role.name?) program.names := by
  obtain ⟨phrase, htokens, -, -, hemission⟩ := ofText_eq_ok_iff.mp h
  have hroles := phrase.roles_tokens rfl .nil
  rw [List.append_nil] at hroles
  rw [Place.roles, List.append_nil] at hroles
  obtain ⟨hperm, hoperands⟩ := phrase.reorders
  rw [hemission] at hperm hoperands
  rw [Role.filter_isOperand_instructions] at hoperands
  refine ⟨phrase.tokens, phrase.roles, htokens, hroles, hoperands.symm, ?_, hperm.symm, ?_, ?_⟩
  · rw [← Role.filterMap_callee?_instructions]
    exact (hperm.filterMap _).symm
  · rw [← hperm.length_eq, ← hroles]
    exact Place.operand.length_instructions phrase.tokens
  · rw [← Role.filterMap_reads?_operands, hoperands, Instruction.filterMap_reads?_operands]
    exact program.firstOccurrences_names

/-- The third minus belongs to the number, the second one negates it. -/
theorem ofText_conserves_tokens_folded :
    ∃ (value : Float) (program : Program), ofText .standard "x---3*f(x)" = .ok program ∧
      program.instructions.filter Instruction.isOperand =
        [.load "x", .number (-value), .load "x"] ∧
      program.instructions.Perm [.load "x", .operator '-', .negate, .number (-value),
        .operator '*', .function "f", .load "x"] ∧
      program.instructions.length + 2 + 1 = 10 ∧
      FirstOccurrences ["x", "x"] program.names := by
  obtain ⟨value, htokens⟩ : ∃ value, Token.ofText "x---3*f(x)" = .ok
      [⟨.name "x", 0⟩, ⟨.mark .minus, 1⟩, ⟨.mark .minus, 2⟩, ⟨.mark .minus, 3⟩, ⟨.number value, 4⟩,
        ⟨.mark .times, 5⟩, ⟨.name "f", 6⟩, ⟨.mark .openParen, 7⟩, ⟨.name "x", 8⟩,
        ⟨.mark .closeParen, 9⟩] :=
    ⟨_, by with_unfolding_all rfl⟩
  obtain ⟨program, hprogram⟩ : ∃ program, ofText .standard "x---3*f(x)" = .ok program :=
    ⟨_, by with_unfolding_all rfl⟩
  obtain ⟨tokens, roles, htokens', rfl, hoperands, -, hall, hlength, hnames⟩ :=
    ofText_conserves_tokens hprogram
  rw [htokens] at htokens'
  obtain rfl := Except.ok.inj htokens'
  exact ⟨value, program, hprogram, hoperands, hall, hlength, hnames⟩

end Program

end BeamCalc
