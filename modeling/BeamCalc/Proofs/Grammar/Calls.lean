import BeamCalc.Proofs.Grammar.Faults
import BeamCalc.Proofs.Grammar.Placement

/-!
# Calls with a wrong number of arguments

`Phrase.calls` lists the calls of a derivation, the inner ones before the outer ones, with the
number of tokens before each. The list is in the order of the closing brackets
(`pairwise_last_calls`), and this is the order in which the arguments are counted.

`Program.ofTokens_calls` says what an expression within the nesting limit is. If every call has as
many arguments as the vocabulary wants, it is a program. If not, the error is that of the wrong call
whose bracket closes first.
-/

set_option autoImplicit false
set_option relaxedAutoImplicit false

namespace BeamCalc

namespace Grammar

/-- A call in a list of tokens, and how many tokens come before it. -/
structure PlacedCall where
  before : Nat
  position : Nat
  name : String
  opening : Nat
  arguments : Phrase .arguments
  closing : Nat

namespace PlacedCall

/-- The call by itself. -/
def phrase (call : PlacedCall) : Phrase .primary :=
  .call call.position call.name call.opening call.arguments call.closing

/-- How many tokens come before the closing bracket. -/
def last (call : PlacedCall) : Nat :=
  call.before + 2 + call.arguments.tokens.length

/-- Whether a call has as many arguments as the vocabulary wants. -/
def Fits (vocabulary : Vocabulary) (call : PlacedCall) : Prop :=
  call.arguments.count = vocabulary.arity call.name

instance (vocabulary : Vocabulary) (call : PlacedCall) : Decidable (call.Fits vocabulary) :=
  inferInstanceAs (Decidable (_ = _))

/-- The fault of a call. -/
def fault (vocabulary : Vocabulary) (call : PlacedCall) : ParseError :=
  ⟨.argumentCount call.name (vocabulary.arity call.name) call.arguments.count, call.position⟩

/-- The fault of a call that has one. -/
def fault? (vocabulary : Vocabulary) (call : PlacedCall) : Option ParseError :=
  if call.Fits vocabulary then none else some (call.fault vocabulary)

variable {vocabulary : Vocabulary} {call : PlacedCall}

theorem fault?_eq_none_iff : call.fault? vocabulary = none ↔ call.Fits vocabulary := by
  simp [fault?]

theorem fault?_eq_some_iff {error : ParseError} :
    call.fault? vocabulary = some error ↔
      ¬call.Fits vocabulary ∧ error = call.fault vocabulary := by
  unfold fault?
  split_ifs with hfits
  · simp [hfits]
  · simp [hfits, eq_comm]

end PlacedCall

namespace Phrase

variable {rule : Rule} {vocabulary : Vocabulary}

/-- The calls of a phrase that stands behind `before` tokens. -/
def calls {rule : Rule} : Phrase rule → Nat → List PlacedCall
  | sum first others, before => first.calls before ++ others.calls (before + first.tokens.length)
  | noTerm, _ => []
  | term _ _ _ next others, before =>
    next.calls (before + 1) ++ others.calls (before + 1 + next.tokens.length)
  | product first others, before =>
    first.calls before ++ others.calls (before + first.tokens.length)
  | noFactor, _ => []
  | factor _ _ _ next others, before =>
    next.calls (before + 1) ++ others.calls (before + 1 + next.tokens.length)
  | unraised base, before => base.calls before
  | raised base _ exponent, before =>
    base.calls before ++ exponent.calls (before + base.tokens.length + 1)
  | unsigned inner, before => inner.calls before
  | negated _ inner, before => inner.calls (before + 1)
  | bare inner, before => inner.calls before
  | negative .., _ => []
  | number .., _ => []
  | positive .., _ => []
  | named .., _ => []
  | call position name opening arguments closing, before =>
    arguments.calls (before + 2) ++ [⟨before, position, name, opening, arguments, closing⟩]
  | group _ inner _, before => inner.calls (before + 1)
  | last argument, before => argument.calls before
  | further argument _ others, before =>
    argument.calls before ++ others.calls (before + argument.tokens.length + 1)

/-- A phrase within the nesting limit has no faults but those of its calls. -/
theorem faults_of_depth_le (phrase : Phrase rule) {level : Nat}
    (hdepth : level + phrase.depth ≤ nestingLimit) (before : Nat) :
    phrase.faults vocabulary level =
      (phrase.calls before).filterMap (PlacedCall.fault? vocabulary) := by
  induction phrase generalizing level before with
  | noTerm | noFactor | negative | number | positive | named => rfl
  | unraised | unsigned | bare | negated | last =>
    rename_i ih
    exact ih hdepth _
  | sum _ _ ihfirst ihothers | product _ _ ihfirst ihothers
  | term _ _ _ _ _ ihfirst ihothers | factor _ _ _ _ _ ihfirst ihothers
  | further _ _ _ ihfirst ihothers =>
    rw [depth] at hdepth
    rw [faults, calls, List.filterMap_append, ihfirst (by omega), ihothers (by omega)]
  | raised base position exponent ihbase ihexponent =>
    rw [depth] at hdepth
    rw [faults, calls, List.filterMap_append, ihbase (by omega),
      Assembly.levelFaults_eq_nil position (by omega), List.nil_append, ihexponent (by omega)]
  | call position name opening arguments closing ih =>
    rw [depth] at hdepth
    rw [faults, calls, List.filterMap_append, Assembly.levelFaults_eq_nil opening (by omega),
      List.nil_append, ih (by omega) (before + 2)]
    congr 1
    unfold callFaults PlacedCall.fault?
    split_ifs <;> simp_all [PlacedCall.Fits, PlacedCall.fault]
  | group opening inner closing ih =>
    rw [depth] at hdepth
    rw [faults, calls, Assembly.levelFaults_eq_nil opening (by omega), List.nil_append,
      ih (by omega)]

/-! ### Where the calls stand -/

end Phrase

namespace PlacedCall

variable {call : PlacedCall} {before : Nat} {tokens : List PlacedToken}

/-- Whether a call stands in a list of tokens that has `before` others before it. -/
def StandsIn (call : PlacedCall) (before : Nat) (tokens : List PlacedToken) : Prop :=
  ∃ earlier later, earlier ++ (call.phrase.tokens ++ later) = tokens ∧
    call.before = before + earlier.length

namespace StandsIn

theorem append (h : call.StandsIn before tokens) (later : List PlacedToken) :
    call.StandsIn before (tokens ++ later) := by
  obtain ⟨earlier, later', rfl, hbefore⟩ := h
  exact ⟨earlier, later' ++ later, by simp only [List.append_assoc], hbefore⟩

theorem behind (earlier : List PlacedToken)
    (h : call.StandsIn (before + earlier.length) tokens) :
    call.StandsIn before (earlier ++ tokens) := by
  obtain ⟨earlier', later, rfl, hbefore⟩ := h
  refine ⟨earlier ++ earlier', later, by simp only [List.append_assoc], ?_⟩
  rw [hbefore, List.length_append, Nat.add_assoc]

theorem behind_token (first : PlacedToken) (h : call.StandsIn (before + 1) tokens) :
    call.StandsIn before (first :: tokens) :=
  behind [first] h

/-- A call ends before the tokens do. -/
theorem last_lt (h : call.StandsIn before tokens) : call.last < before + tokens.length := by
  obtain ⟨earlier, later, rfl, hbefore⟩ := h
  simp only [last, phrase, Phrase.tokens, List.length_append, List.length_cons]
  omega

/-- The last token of a call is its closing bracket. -/
theorem getElem?_last (h : call.StandsIn 0 tokens) :
    tokens[call.last]? = some ⟨.mark .closeParen, call.closing⟩ := by
  obtain ⟨earlier, later, rfl, hbefore⟩ := h
  have hlast : call.last = earlier.length + (2 + call.arguments.tokens.length) := by
    rw [last, hbefore]
    omega
  rw [hlast, List.getElem?_append_right (Nat.le_add_right _ _), Nat.add_sub_cancel_left]
  simp [phrase, Phrase.tokens, Nat.add_comm 2]

theorem le_before (h : call.StandsIn before tokens) : before ≤ call.before := by
  obtain ⟨earlier, later, -, hbefore⟩ := h
  omega

end StandsIn

end PlacedCall

namespace Phrase

variable {rule : Rule} {vocabulary : Vocabulary}

/-- The calls of a phrase stand in it. -/
theorem standsIn_of_mem_calls {phrase : Phrase rule} {before : Nat} {call : PlacedCall}
    (h : call ∈ phrase.calls before) : call.StandsIn before phrase.tokens := by
  induction phrase generalizing before with
  | noTerm | noFactor | negative | number | positive | named => cases h
  | unraised | unsigned | bare | last =>
    rename_i ih
    exact ih h
  | sum _ _ ihfirst ihothers | product _ _ ihfirst ihothers =>
    rcases List.mem_append.mp h with h | h
    · exact (ihfirst h).append _
    · exact (ihothers h).behind _
  | term _ _ _ _ _ ihnext ihothers | factor _ _ _ _ _ ihnext ihothers =>
    refine PlacedCall.StandsIn.behind_token _ ?_
    rcases List.mem_append.mp h with h | h
    · exact (ihnext h).append _
    · exact (ihothers h).behind _
  | raised base position exponent ihbase ihothers
  | further base position exponent ihbase ihothers =>
    rcases List.mem_append.mp h with h | h
    · exact (ihbase h).append _
    · exact ((ihothers h).behind_token _).behind _
  | negated position inner ih => exact (ih h).behind_token _
  | group opening inner closing ih => exact ((ih h).append _).behind_token _
  | call position name opening arguments closing ih =>
    rcases List.mem_append.mp h with h | h
    · exact (((ih h).append _).behind_token _).behind_token _
    · obtain rfl := List.mem_singleton.mp h
      exact ⟨[], [], by simp [PlacedCall.phrase], rfl⟩

/-- The calls of a phrase are in the order of their closing brackets. -/
theorem pairwise_last_calls (phrase : Phrase rule) (before : Nat) :
    (phrase.calls before).Pairwise (·.last < ·.last) := by
  induction phrase generalizing before with
  | noTerm | noFactor | negative | number | positive | named => exact .nil
  | unraised | unsigned | bare | last | negated | group =>
    rename_i ih
    exact ih _
  | sum _ _ ihfirst ihothers | product _ _ ihfirst ihothers
  | term _ _ _ _ _ ihfirst ihothers | factor _ _ _ _ _ ihfirst ihothers
  | raised _ _ _ ihfirst ihothers | further _ _ _ ihfirst ihothers =>
    refine List.pairwise_append.mpr ⟨ihfirst _, ihothers _, fun call hcall other hother ↦ ?_⟩
    have hlast := (standsIn_of_mem_calls hcall).last_lt
    have hbefore := (standsIn_of_mem_calls hother).le_before
    rw [PlacedCall.last.eq_def other]
    omega
  | call position name opening arguments closing ih =>
    refine List.pairwise_append.mpr
      ⟨ih _, List.pairwise_singleton _ _, fun call hcall outer houter ↦ ?_⟩
    obtain rfl := List.mem_singleton.mp houter
    exact (standsIn_of_mem_calls hcall).last_lt

end Phrase

end Grammar

namespace Program

open Grammar

/-- What an expression within the nesting limit is. If every call has as many arguments as the
vocabulary wants, it is a program. If not, the error is that of the wrong call whose closing bracket
comes first. -/
theorem ofTokens_calls (vocabulary : Vocabulary) (textEnd : Nat) {phrase : Phrase .sum}
    (hdepth : phrase.depth ≤ nestingLimit) :
    (∀ call ∈ phrase.calls 0, call.StandsIn 0 phrase.tokens ∧
      phrase.tokens[call.last]? = some ⟨.mark .closeParen, call.closing⟩) ∧
    ((∀ call ∈ phrase.calls 0, call.Fits vocabulary) →
      ofTokens vocabulary textEnd phrase.tokens = .ok ⟨phrase.emission⟩) ∧
    ((∃ call ∈ phrase.calls 0, ¬call.Fits vocabulary) →
      ∃ call ∈ phrase.calls 0, ¬call.Fits vocabulary ∧
        (∀ other ∈ phrase.calls 0, ¬other.Fits vocabulary → call.last ≤ other.last) ∧
        ofTokens vocabulary textEnd phrase.tokens =
          .error ⟨.argumentCount call.name (vocabulary.arity call.name) call.arguments.count,
            call.position⟩) := by
  have hfaults : phrase.faults vocabulary 0 =
      (phrase.calls 0).filterMap (PlacedCall.fault? vocabulary) :=
    phrase.faults_of_depth_le (by rwa [Nat.zero_add]) 0
  have hresult := ofTokens_tokens vocabulary textEnd phrase
  refine ⟨fun call hcall ↦ ?_, fun hfits ↦ ?_, fun ⟨wrong, hwrong, hunfit⟩ ↦ ?_⟩
  · have hstands := Phrase.standsIn_of_mem_calls hcall
    exact ⟨hstands, hstands.getElem?_last⟩
  · have hnil : phrase.faults vocabulary 0 = [] := by
      rw [hfaults, List.filterMap_eq_nil_iff]
      exact fun call hcall ↦ PlacedCall.fault?_eq_none_iff.mpr (hfits call hcall)
    rw [hresult, hnil]
  · cases hcases : phrase.faults vocabulary 0 with
    | nil =>
      rw [hfaults, List.filterMap_eq_nil_iff] at hcases
      exact absurd (PlacedCall.fault?_eq_none_iff.mp (hcases wrong hwrong)) hunfit
    | cons fault others =>
      rw [hcases] at hresult
      rw [hfaults, List.filterMap_eq_cons_iff] at hcases
      obtain ⟨before, call, after, hcalls, hbefore, hfault, -⟩ := hcases
      obtain ⟨hcall, rfl⟩ := PlacedCall.fault?_eq_some_iff.mp hfault
      refine ⟨call, by simp [hcalls], hcall, fun other hother hunfit' ↦ ?_, hresult⟩
      have hsorted := phrase.pairwise_last_calls 0
      rw [hcalls] at hother hsorted
      -- The calls before this one fit, and those after it close later.
      rcases List.mem_append.mp hother with hearlier | hother
      · exact absurd (PlacedCall.fault?_eq_none_iff.mp (hbefore other hearlier)) hunfit'
      · rcases List.mem_cons.mp hother with rfl | hlater
        · exact Nat.le_refl _
        · have hrest := (List.pairwise_append.mp hsorted).2.1
          exact Nat.le_of_lt ((List.pairwise_cons.mp hrest).1 other hlater)

end Program

namespace Grammar.Phrase

/-- The derivation of `max(sin(x,y))`. -/
def wrongCalls : Phrase .sum :=
  .ofOperand (.unsigned (.call 0 "max" 3 (.last (.ofOperand (.unsigned (.call 4 "sin" 7
    (.further (.ofOperand (.unsigned (.named 8 "x"))) 9
      (.last (.ofOperand (.unsigned (.named 10 "y"))))) 11)))) 12))

end Grammar.Phrase

namespace Program

open Grammar

/-- Both calls have a wrong number of arguments, and the inner one closes first. -/
theorem ofTokens_calls_inner :
    Token.ofText "max(sin(x,y))" = .ok Phrase.wrongCalls.tokens ∧
      Phrase.wrongCalls.depth ≤ nestingLimit ∧
      ofTokens .standard 13 Phrase.wrongCalls.tokens = .error ⟨.argumentCount "sin" 1 2, 4⟩ := by
  have hdepth : Phrase.wrongCalls.depth ≤ nestingLimit := by decide
  obtain ⟨inner, outer, hcalls, hinner, hlast, hfault⟩ : ∃ inner outer,
      Phrase.wrongCalls.calls 0 = [inner, outer] ∧ ¬inner.Fits .standard ∧ inner.last < outer.last ∧
        inner.fault .standard = ⟨.argumentCount "sin" 1 2, 4⟩ :=
    ⟨_, _, rfl, by rw [PlacedCall.Fits, Phrase.count, Phrase.count]; decide, by decide,
      by rw [PlacedCall.fault, Phrase.count, Phrase.count]; decide⟩
  obtain ⟨call, hcall, -, hfirst, herror⟩ := (ofTokens_calls .standard 13 hdepth).2.2
    ⟨inner, by simp [hcalls], hinner⟩
  rw [hcalls] at hcall hfirst
  obtain rfl : call = inner := by
    rcases List.mem_pair.mp hcall with rfl | rfl
    · rfl
    · exact absurd (hfirst inner List.mem_cons_self hinner) (Nat.not_le.mpr hlast)
  exact ⟨by decide +kernel, hdepth, herror.trans (congrArg Except.error hfault)⟩

end Program

end BeamCalc
