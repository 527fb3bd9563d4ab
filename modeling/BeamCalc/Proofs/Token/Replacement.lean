import BeamCalc.Proofs.Token.Tiling

/-!
# Replacing a name in a text

`replaceName` puts a text wherever a name stands in another text, unless the name is that of a call.
If the text that is put in stands in brackets, the words around it stay as they are, because no word
goes on with a bracket (`first?_of_agree`). So the tokens are those of the text, in which the
bracketed ones stand for the name (`Exchanges`, `Scans.exists_replaceName`). Their positions change,
but a number that touches the sign before it does so afterwards.
-/

set_option autoImplicit false
set_option relaxedAutoImplicit false

namespace BeamCalc.Token

open Text Lexicon

/-! ### Texts -/

/-- Whether an opening bracket comes next in a text. -/
def opensNext (text : List Char) : Bool :=
  (text.dropWhile isSeparator).head? = some Mark.openParen.symbol

/-- The text in which `block` stands wherever the name does, except in calls. What comes after the
first character that belongs to no lexeme is left as it is. -/
def replaceName (name : String) (block text : List Char) : List Char :=
  match text with
  | [] => []
  | first :: others =>
    if isSeparator first then first :: replaceName name block others
    else
      match _found : Lexeme.first? (first :: others) with
      | none => first :: others
      | some ⟨taken, rest, token⟩ =>
        (if token = some (.name name) ∧ opensNext rest = false then block else taken) ++
          replaceName name block rest
termination_by text.length
decreasing_by
  · exact Nat.lt_succ_self _
  · exact Lexeme.length_rest_lt_of_first? _found

variable {name : String} {block text rest rest' taken : List Char} {token : Token}

theorem replaceName_nil : replaceName name block [] = [] := by
  rw [replaceName]

theorem replaceName_separator {first : Char} (hseparator : isSeparator first = true)
    (rest : List Char) :
    replaceName name block (first :: rest) = first :: replaceName name block rest := by
  rw [replaceName, if_pos hseparator]

theorem replaceName_lexeme {first : Char} {others : List Char}
    (hseparator : isSeparator first = false)
    (hlexeme : Lexeme.first? (first :: others) = some ⟨taken, rest, some token⟩) :
    replaceName name block (first :: others) =
      (if token = .name name ∧ opensNext rest = false then block else taken) ++
        replaceName name block rest := by
  rw [replaceName, if_neg (by simp [hseparator])]
  split
  · rename_i hnone
    rw [hlexeme] at hnone
    cases hnone
  · rename_i hfound
    rw [hlexeme] at hfound
    cases hfound
    simp only [Option.some.injEq]

/-- Two texts are the same, or they are the same up to a bracket in the second. -/
def AgreeToBracket (text text' : List Char) : Prop :=
  text' = text ∨ ∃ common left left', text = common ++ left ∧
    text' = common ++ Mark.openParen.symbol :: left'

theorem AgreeToBracket.append_left (h : AgreeToBracket rest rest') (before : List Char) :
    AgreeToBracket (before ++ rest) (before ++ rest') := by
  rcases h with rfl | ⟨common, left, left', rfl, rfl⟩
  · exact Or.inl rfl
  · exact Or.inr ⟨before ++ common, left, left', by simp, by simp⟩

/-- A text stays as it is up to the first bracket that is put in. -/
theorem agreeToBracket_replaceName (name : String) (block text : List Char) :
    AgreeToBracket text (replaceName name (Mark.openParen.symbol :: block) text) := by
  fun_induction replaceName name (Mark.openParen.symbol :: block) text with
  | case1 => exact Or.inl rfl
  | case2 first others hseparator ih => exact ih.append_left [first]
  | case3 first others hseparator hnone => exact Or.inl rfl
  | case4 first others hseparator taken rest token hfound ih =>
    have htext := (Lexeme.append_of_first? hfound).1
    split
    · exact Or.inr ⟨[], first :: others, _, rfl, rfl⟩
    · rw [← htext]
      exact ih.append_left taken

/-- A lexeme is the same before a text that agrees up to a bracket. -/
theorem first?_of_agree (h : Lexeme.first? (taken ++ rest) = some ⟨taken, rest, some token⟩)
    (hagree : AgreeToBracket rest rest') :
    Lexeme.first? (taken ++ rest') = some ⟨taken, rest', some token⟩ := by
  rcases hagree with rfl | ⟨common, left, left', rfl, rfl⟩
  · exact h
  · obtain ⟨-, hlongest, hspells⟩ := first?_eq_some_iff.mp h
    rw [← List.append_assoc] at hlongest
    have hcommon := hlongest.shorten (List.prefix_append _ _)
    exact first?_eq_some_iff.mpr
      ⟨rfl, isLongest_before_divider isDivider_openParen left' hcommon, hspells⟩

/-! ### Tokens -/

/-- An opening bracket comes next. -/
def Opens (tokens : List PlacedToken) : Prop :=
  ∃ position rest, tokens = ⟨.mark .openParen, position⟩ :: rest

/-- Tokens in which the tokens `inner` in brackets stand for a name, except in calls. The others are
the same, and a number that touches the token before it goes on to do so. -/
inductive Exchanges (name : String) (inner : List PlacedToken) :
    List PlacedToken → List PlacedToken → Prop where
  | nil : Exchanges name inner [] []
  | kept {token : Token} {position position' : Nat} {tokens tokens' : List PlacedToken}
      (hkept : token = .name name → Opens tokens)
      (htouches : ∀ value rest, tokens = ⟨.number value, position + 1⟩ :: rest →
        ∃ rest', tokens' = ⟨.number value, position' + 1⟩ :: rest')
      (hrest : Exchanges name inner tokens tokens') :
    Exchanges name inner (⟨token, position⟩ :: tokens) (⟨token, position'⟩ :: tokens')
  | exchanged {position opening distance closing : Nat} {tokens tokens' : List PlacedToken}
      (hname : ¬Opens tokens) (hrest : Exchanges name inner tokens tokens') :
    Exchanges name inner (⟨.name name, position⟩ :: tokens)
      (⟨.mark .openParen, opening⟩ :: (inner.map (.moved distance) ++
        ⟨.mark .closeParen, closing⟩ :: tokens'))

namespace Exchanges

variable {name : String} {inner tokens tokens' : List PlacedToken}

/-- A token that is not exchanged stays, and a number that touches it goes on to do so. -/
theorem of_kept {token : Token} {position : Nat}
    (h : Exchanges name inner (⟨token, position⟩ :: tokens) tokens')
    (hkept : token = .name name → Opens tokens) :
    ∃ position' rest, tokens' = ⟨token, position'⟩ :: rest ∧ Exchanges name inner tokens rest ∧
      ∀ value more, tokens = ⟨.number value, position + 1⟩ :: more →
        ∃ more', rest = ⟨.number value, position' + 1⟩ :: more' := by
  cases h with
  | kept _ htouches hrest => exact ⟨_, _, rfl, hrest, htouches⟩
  | exchanged hname hrest => exact absurd (hkept rfl) hname

theorem of_mark {sign : Mark} {position : Nat}
    (h : Exchanges name inner (⟨.mark sign, position⟩ :: tokens) tokens') :
    ∃ position' rest, tokens' = ⟨.mark sign, position'⟩ :: rest ∧
      Exchanges name inner tokens rest := by
  obtain ⟨position', rest, htokens, hrest, -⟩ := h.of_kept nofun
  exact ⟨position', rest, htokens, hrest⟩

/-- A sign and the number that touches it stay. -/
theorem of_signed {sign : Mark} {value : Float} {position : Nat}
    (h : Exchanges name inner
      (⟨.mark sign, position⟩ :: ⟨.number value, position + 1⟩ :: tokens) tokens') :
    ∃ position' rest,
      tokens' = ⟨.mark sign, position'⟩ :: ⟨.number value, position' + 1⟩ :: rest ∧
        Exchanges name inner tokens rest := by
  obtain ⟨position', rest, rfl, hrest, htouches⟩ := h.of_kept nofun
  obtain ⟨more', rfl⟩ := htouches value tokens rfl
  obtain ⟨_, _, hsame, hafter, -⟩ := hrest.of_kept nofun
  cases hsame
  exact ⟨position', more', rfl, hafter⟩

/-- The name, where it is exchanged. -/
theorem of_exchanged {position : Nat}
    (h : Exchanges name inner (⟨.name name, position⟩ :: tokens) tokens')
    (hopens : ¬Opens tokens) :
    ∃ opening distance closing rest, tokens' = ⟨.mark .openParen, opening⟩ ::
        (inner.map (.moved distance) ++ ⟨.mark .closeParen, closing⟩ :: rest) ∧
      Exchanges name inner tokens rest := by
  cases h with
  | kept hkept => exact absurd (hkept rfl) hopens
  | exchanged _ hrest => exact ⟨_, _, _, _, rfl, hrest⟩

end Exchanges

/-- A bracket comes next in a text if it comes next among the tokens. -/
theorem Scans.opensNext_iff {position : Nat} {tokens : List PlacedToken}
    (h : Scans position text tokens) : opensNext text ↔ Opens tokens := by
  induction h with
  | nil =>
    constructor
    · intro h
      cases h
    · rintro ⟨_, _, h⟩
      cases h
  | @separator position first rest tokens hseparator hrest ih =>
    rw [← ih, opensNext, List.dropWhile_cons_of_pos hseparator, opensNext]
  | @lexeme position first others taken rest token tokens hseparator hlexeme hrest ih =>
    rw [opensNext, List.dropWhile_cons_of_neg (by simp [hseparator])]
    have hmark : first = Mark.openParen.symbol ↔ token = .mark .openParen := by
      constructor
      · rintro rfl
        rw [first?_mark] at hlexeme
        cases hlexeme
        rfl
      · rintro rfl
        obtain ⟨htext, -, hspells⟩ := first?_eq_some_iff.mp hlexeme
        cases hspells
        exact (List.cons.inj htext).1.symm
    simp [Opens, hmark]

/-- The tokens of a text in which a bracketed one stands for a name. -/
theorem Scans.exists_replaceName {innerText : List Char} {inner : List PlacedToken}
    (hinner : Scans 0 innerText inner) (name : String) {position : Nat}
    {tokens : List PlacedToken} (h : Scans position text tokens) (position' : Nat) :
    ∃ tokens', Scans position' (replaceName name (Mark.openParen.symbol ::
          (innerText ++ [Mark.closeParen.symbol])) text) tokens' ∧
      Exchanges name inner tokens tokens' ∧
      ∀ value rest, tokens = ⟨.number value, position⟩ :: rest →
        ∃ rest', tokens' = ⟨.number value, position'⟩ :: rest' := by
  induction h generalizing position' with
  | nil =>
    rw [replaceName_nil]
    exact ⟨[], .nil, .nil, fun _ _ h ↦ nomatch h⟩
  | @separator position first rest tokens hseparator hrest ih =>
    obtain ⟨tokens', hscans, hexchanges, -⟩ := ih (position' + first.utf8Size)
    rw [replaceName_separator hseparator]
    refine ⟨tokens', .separator hseparator hscans, hexchanges, ?_⟩
    rintro value more rfl
    have hle := hrest.position_le List.mem_cons_self
    have hpos := first.utf8Size_pos
    change position + first.utf8Size ≤ position at hle
    omega
  | @lexeme position first others taken rest token tokens hseparator hlexeme hrest ih =>
    rw [replaceName_lexeme hseparator hlexeme]
    by_cases hname : token = .name name ∧ opensNext rest = false
    · obtain ⟨rfl, hnext⟩ := hname
      obtain ⟨tokens', hscans, hexchanges, -⟩ :=
        ih (position' + 1 + byteLength innerText + 1)
      rw [if_pos ⟨rfl, hnext⟩]
      rw [List.cons_append, List.append_assoc, List.singleton_append]
      refine ⟨_, hinner.bracketed position' hscans, .exchanged (fun hopens ↦ ?_) hexchanges,
        fun _ _ h ↦ nomatch h⟩
      rw [hrest.opensNext_iff.mpr hopens] at hnext
      cases hnext
    · rw [if_neg hname]
      obtain ⟨tokens', hscans, hexchanges, htouches⟩ := ih (position' + byteLength taken)
      have htext := (Lexeme.append_of_first? hlexeme).1
      have hlexeme' := first?_of_agree (htext ▸ hlexeme)
        (agreeToBracket_replaceName name (innerText ++ [Mark.closeParen.symbol]) rest)
      refine ⟨⟨token, position'⟩ :: tokens', ?_, .kept ?_ ?_ hexchanges, ?_⟩
      · match taken with
        | [] => exact absurd rfl (Lexeme.append_of_first? hlexeme).2
        | first' :: taken =>
          obtain ⟨rfl, -⟩ := List.cons.inj htext
          exact .lexeme hseparator hlexeme' hscans
      · rintro rfl
        rw [← hrest.opensNext_iff]
        by_contra hno
        exact hname ⟨rfl, by simpa using hno⟩
      · rintro value more rfl
        -- A number that touches a token of one byte stands where the scan goes on.
        have hle := hrest.position_le List.mem_cons_self
        have hpos : 0 < byteLength taken := byteLength_pos (Lexeme.append_of_first? hlexeme).2
        change position + byteLength taken ≤ position + 1 at hle
        have hone : byteLength taken = 1 := by omega
        rw [hone] at htouches
        exact htouches value more rfl
      · rintro value more hsame
        cases hsame
        exact ⟨tokens', rfl⟩

end BeamCalc.Token
