import BeamCalc.Proofs.Grammar.Derivation

/-!
# The first fault

A list of tokens that has a derivation can still be no program: a level may be one too many, and a
call may have another number of arguments than the vocabulary wants. A level is checked where it is
opened and a call where its bracket closes. `Phrase.faults` lists what is wrong with a derivation in
the order of these places.

`settles_assemble` says that a phrase fails with the first of its faults and is emitted as a whole
if it has none, and `Program.ofTokens_tokens` says so of the tokens that it derives.
-/

set_option autoImplicit false
set_option relaxedAutoImplicit false

namespace BeamCalc

/-! ### Actions with faults -/

namespace Assembly

/-- What an action makes of an assembly that would emit instructions and has faults. -/
def settle (assembly : Assembly) (instructions : List Instruction) :
    List ParseError → Except ParseError Assembly
  | [] => .ok (assembly.emitAll instructions)
  | fault :: _ => .error fault

/-- Instructions are emitted where there is no fault. -/
theorem settle_eq_ok_iff {assembly : Assembly} {instructions : List Instruction}
    {faults : List ParseError} :
    assembly.settle instructions faults = .ok (assembly.emitAll instructions) ↔ faults = [] := by
  cases faults with
  | nil => exact ⟨fun _ ↦ rfl, fun _ ↦ rfl⟩
  | cons fault others => exact ⟨nofun, nofun⟩

/-- An action that fails with the first of its faults and emits `instructions` if it has none. The
faults depend on the vocabulary and on how many levels are open. -/
def Settles (action : Assembly → Except ParseError Assembly)
    (faults : Vocabulary → Nat → List ParseError) (instructions : List Instruction) : Prop :=
  ∀ ⦃assembly : Assembly⦄, assembly.depth ≤ nestingLimit →
    action assembly = assembly.settle instructions (faults assembly.vocabulary assembly.depth)

/-- The fault of opening one more level at a position. -/
def levelFaults (position level : Nat) : List ParseError :=
  if level = nestingLimit then [⟨.nestingTooDeep nestingLimit, position⟩] else []

theorem levelFaults_eq_nil (position : Nat) {level : Nat} (h : level ≠ nestingLimit) :
    levelFaults position level = [] :=
  if_neg h

namespace Settles

variable {action next : Assembly → Except ParseError Assembly}
  {faults faults' : Vocabulary → Nat → List ParseError}
  {instructions instructions' : List Instruction}

/-- Doing nothing has no faults. -/
theorem done : Settles .ok (fun _ _ ↦ []) [] :=
  fun _ _ ↦ rfl

/-- One instruction is emitted in any case. -/
theorem emit (instruction : Instruction) :
    Settles (fun assembly ↦ .ok (assembly.emit instruction)) (fun _ _ ↦ []) [instruction] :=
  fun _ _ ↦ rfl

/-- Of two actions the faults of the first one come first. -/
theorem andThen (haction : Settles action faults instructions)
    (hnext : Settles next faults' instructions') :
    Settles (fun assembly ↦ action assembly >>= next)
      (fun vocabulary level ↦ faults vocabulary level ++ faults' vocabulary level)
      (instructions ++ instructions') := by
  intro assembly hdepth
  dsimp only
  rw [haction hdepth]
  cases faults assembly.vocabulary assembly.depth with
  | cons fault others => rfl
  | nil =>
    have hmiddle : (assembly.emitAll instructions).depth ≤ nestingLimit := hdepth
    change next (assembly.emitAll instructions) = _
    rw [hnext hmiddle]
    change settle _ _ (faults' assembly.vocabulary assembly.depth) = _
    rw [List.nil_append]
    cases faults' assembly.vocabulary assembly.depth with
    | cons fault others => rfl
    | nil => exact congrArg Except.ok (emitAll_emitAll assembly instructions instructions')

/-- One instruction after an action. -/
theorem andEmit (haction : Settles action faults instructions) (instruction : Instruction) :
    Settles (fun assembly ↦ action assembly >>= fun assembly ↦ .ok (assembly.emit instruction))
      faults (instructions ++ [instruction]) := by
  intro assembly hdepth
  simpa using haction.andThen (emit instruction) hdepth

/-- One instruction before an action. -/
theorem emitThen (instruction : Instruction) (haction : Settles action faults instructions) :
    Settles (fun assembly ↦ action (assembly.emit instruction)) faults
      (instruction :: instructions) :=
  fun _ hdepth ↦ (emit instruction).andThen haction hdepth

/-- An action within a nesting level has the faults that it has there, after that of the level. -/
theorem nested (haction : Settles action faults instructions) (position : Nat) :
    Settles (Assembly.nested position action)
      (fun vocabulary level ↦ levelFaults position level ++ faults vocabulary (level + 1))
      instructions := by
  intro assembly hdepth
  dsimp only
  rw [Assembly.nested, descend, levelFaults]
  by_cases hlimit : assembly.depth = nestingLimit
  · rw [if_pos hlimit, if_pos (Nat.le_of_eq hlimit.symm)]
    rfl
  · have hdeeper : assembly.depth + 1 ≤ nestingLimit := by omega
    rw [if_neg hlimit, if_neg (by omega)]
    change (action { assembly with depth := assembly.depth + 1 } >>= _) = _
    rw [haction hdeeper]
    change (settle _ _ (faults assembly.vocabulary (assembly.depth + 1)) >>= _) = _
    rw [List.nil_append]
    cases faults assembly.vocabulary (assembly.depth + 1) <;> rfl

end Settles

end Assembly

namespace Grammar

/-- The fault of a call that has so many arguments. -/
def callFaults (vocabulary : Vocabulary) (name : String) (position count : Nat) :
    List ParseError :=
  if count = vocabulary.arity name then []
  else [⟨.argumentCount name (vocabulary.arity name) count, position⟩]

/-- A call has no fault but its number of arguments. -/
theorem settles_emitCall (name : String) (position count : Nat) :
    Assembly.Settles (emitCall · name position count)
      (fun vocabulary _ ↦ callFaults vocabulary name position count) [.function name] := by
  intro assembly hdepth
  unfold emitCall callFaults
  by_cases harity : count = assembly.vocabulary.arity name
  · simp [harity, Assembly.settle, Assembly.emit_eq_emitAll]
  · simp [harity, Assembly.settle]

namespace Phrase

variable {rule : Rule}

/-- What is wrong with a phrase that begins where `level` levels are open, in the order in which it
is found. -/
def faults (vocabulary : Vocabulary) {rule : Rule} : Phrase rule → Nat → List ParseError
  | sum first others, level => first.faults vocabulary level ++ others.faults vocabulary level
  | noTerm, _ => []
  | term _ _ _ next others, level =>
    next.faults vocabulary level ++ others.faults vocabulary level
  | product first others, level => first.faults vocabulary level ++ others.faults vocabulary level
  | noFactor, _ => []
  | factor _ _ _ next others, level =>
    next.faults vocabulary level ++ others.faults vocabulary level
  | unraised base, level => base.faults vocabulary level
  | raised base position exponent, level =>
    base.faults vocabulary level ++
      (Assembly.levelFaults position level ++ exponent.faults vocabulary (level + 1))
  | unsigned inner, level => inner.faults vocabulary level
  | negated _ inner, level => inner.faults vocabulary level
  | bare inner, level => inner.faults vocabulary level
  | negative .., _ => []
  | number .., _ => []
  | positive .., _ => []
  | named .., _ => []
  | call position name opening arguments _, level =>
    Assembly.levelFaults opening level ++ arguments.faults vocabulary (level + 1) ++
      callFaults vocabulary name position arguments.count
  | group opening inner _, level =>
    Assembly.levelFaults opening level ++ inner.faults vocabulary (level + 1)
  | last argument, level => argument.faults vocabulary level
  | further argument _ others, level =>
    argument.faults vocabulary level ++ others.faults vocabulary level

/-- A phrase fails with the first of its faults, or it is emitted. -/
theorem settles_assemble (phrase : Phrase rule) :
    Assembly.Settles phrase.assemble (fun vocabulary level ↦ phrase.faults vocabulary level)
      phrase.emission := by
  induction phrase with
  | sum first others ihfirst ihothers => exact ihfirst.andThen ihothers
  | noTerm => exact .done
  | term sign additive position next others ihnext ihothers =>
    exact ihnext.andThen (ihothers.emitThen _)
  | product first others ihfirst ihothers => exact ihfirst.andThen ihothers
  | noFactor => exact .done
  | factor sign multiplicative position next others ihnext ihothers =>
    exact ihnext.andThen (ihothers.emitThen _)
  | unraised base ih => exact ih
  | raised base position exponent ihbase ihexponent =>
    exact ihbase.andThen ((ihexponent.nested position).andEmit _)
  | unsigned inner ih => exact ih
  | negated position inner ih => exact ih.andEmit .negate
  | bare inner ih => exact ih
  | negative position value => exact .emit _
  | number position value => exact .emit _
  | positive position value => exact .emit _
  | named position name => exact .emit _
  | call position name opening arguments closing ih =>
    exact (ih.nested opening).andThen (settles_emitCall name position arguments.count)
  | group opening inner closing ih => exact ih.nested opening
  | last argument ih => exact ih
  | further argument comma others ihargument ihothers => exact ihargument.andThen ihothers

/-- Nothing is wrong with a phrase whose calls fit and that stays within the nesting limit. -/
theorem faults_eq_nil_iff (phrase : Phrase rule) {vocabulary : Vocabulary} {level : Nat}
    (hlevel : level ≤ nestingLimit) :
    phrase.faults vocabulary level = [] ↔
      phrase.CallsFit vocabulary ∧ level + phrase.depth ≤ nestingLimit := by
  let assembly : Assembly := { vocabulary, textEnd := 0, depth := level }
  have hsettles : phrase.assemble assembly =
      assembly.settle phrase.emission (phrase.faults vocabulary level) :=
    phrase.settles_assemble hlevel
  have hemits : phrase.assemble assembly = .ok (assembly.emitAll phrase.emission) ↔
      phrase.CallsFit vocabulary ∧ level + phrase.depth ≤ nestingLimit ∧
        assembly.emitAll phrase.emission = assembly.emitAll phrase.emission :=
    phrase.emits_assemble hlevel
  rw [hsettles, Assembly.settle_eq_ok_iff] at hemits
  simpa using hemits

end Phrase

end Grammar

namespace Program

open Grammar

/-- What the tokens of a derivation write: its postfix form if nothing is wrong with it, or else
nothing, with what is found first. -/
theorem ofTokens_tokens (vocabulary : Vocabulary) (textEnd : Nat) (phrase : Phrase .sum) :
    ofTokens vocabulary textEnd phrase.tokens =
      match phrase.faults vocabulary 0 with
      | [] => .ok ⟨phrase.emission⟩
      | fault :: _ => .error fault := by
  have hread := readSum_tokens phrase { vocabulary, textEnd } .nil
  rw [List.append_nil, phrase.settles_assemble (Nat.zero_le _)] at hread
  rw [ofTokens_eq vocabulary textEnd (phrase.tokens_ne_nil (by simp) (by simp)), hread]
  dsimp only
  cases phrase.faults vocabulary 0 with
  | cons fault others => rfl
  | nil =>
    change Except.ok (Assembly.program _) = _
    rw [Assembly.program_emitAll]

end Program

end BeamCalc
