import BeamCalc.Text.Blank
import BeamCalc.Text.Cut
import Mathlib.Data.List.Infix
import Mathlib.Data.List.TakeWhile

/-!
# Where a text is cut and what is trimmed

A cut finds the first of all places where a mark stands (`cut?_eq_some_iff`), and it finds none only
if there is none (`cut?_eq_none_iff`). A text that is trimmed loses blanks at both ends
(`exists_trim`) and no others: a text without blanks is what is left of it after any blanks were put
around it (`trim_append`).
-/

set_option autoImplicit false
set_option relaxedAutoImplicit false

namespace BeamCalc.Text

variable {mark text before rest word after : List Char} {first : Char}

/-! ### Cuts -/

theorem after?_eq_some_iff : after? mark text = some rest ↔ mark ++ rest = text := by
  refine ⟨append_of_after?, ?_⟩
  rintro rfl
  induction mark with
  | nil => rfl
  | cons first mark ih => rw [List.cons_append, after?, if_pos rfl, ih]

/-- Where a text is cut at the first of the places where a mark stands. -/
structure StandsFirst (mark text before rest : List Char) : Prop where
  append_eq : before ++ mark ++ rest = text
  length_le : ∀ before' rest', before' ++ mark ++ rest' = text → before.length ≤ before'.length

/-- A mark stands first at one place only. -/
theorem StandsFirst.eq {before' rest' : List Char} (h : StandsFirst mark text before rest)
    (h' : StandsFirst mark text before' rest') : (before, rest) = (before', rest') := by
  have hlength : before.length = before'.length :=
    Nat.le_antisymm (h.length_le _ _ h'.append_eq) (h'.length_le _ _ h.append_eq)
  have hsame : before ++ (mark ++ rest) = before' ++ (mark ++ rest') := by
    rw [← List.append_assoc, ← List.append_assoc, h.append_eq, h'.append_eq]
  obtain ⟨rfl, hrest⟩ := List.append_inj hsame hlength
  rw [List.append_cancel_left hrest]

/-- A text without a character has no place at which a mark that begins with it stands earlier. -/
theorem StandsFirst.of_not_mem (h : first ∉ before) (mark rest : List Char) :
    StandsFirst (first :: mark) (before ++ (first :: mark) ++ rest) before rest := by
  refine ⟨rfl, fun before' rest' htext ↦ ?_⟩
  by_contra hshort
  have hlt : before'.length < before.length := Nat.lt_of_not_le hshort
  have hfirst : (before' ++ (first :: mark) ++ rest')[before'.length]? = some first := by simp
  rw [htext, List.append_assoc, List.getElem?_append_left hlt] at hfirst
  exact h (List.mem_of_getElem? hfirst)

theorem cut?_ne_none (h : mark <:+: text) : cut? mark text ≠ none := by
  induction text with
  | nil =>
    obtain rfl := List.infix_nil.mp h
    exact Option.some_ne_none _
  | cons first text ih =>
    rw [cut?]
    split
    · exact Option.some_ne_none _
    · rename_i hnone
      rcases List.infix_cons_iff.mp h with ⟨rest, hprefix⟩ | hwithin
      · rw [after?_eq_some_iff.mpr hprefix] at hnone
        cases hnone
      · exact mt Option.map_eq_none_iff.mp (ih hwithin)

/-- A text is not cut exactly if the mark stands nowhere in it. -/
theorem cut?_eq_none_iff : cut? mark text = none ↔ ¬mark <:+: text := by
  refine ⟨fun hnone hwithin ↦ cut?_ne_none hwithin hnone, fun hno ↦ ?_⟩
  refine Option.eq_none_iff_forall_ne_some.mpr fun ⟨before, rest⟩ hcut ↦ ?_
  exact hno ⟨before, rest, append_of_cut? hcut⟩

theorem length_le_of_cut? (h : cut? mark text = some (before, rest)) (before' rest' : List Char)
    (htext : before' ++ mark ++ rest' = text) : before.length ≤ before'.length := by
  induction text generalizing before before' with
  | nil =>
    have hwhole := congrArg List.length (append_of_cut? h)
    simp only [List.length_append, List.length_nil] at hwhole
    omega
  | cons first text ih =>
    rw [cut?] at h
    split at h
    · obtain ⟨rfl, -⟩ := Prod.mk.inj (Option.some.inj h)
      exact Nat.zero_le _
    · rename_i hnone
      obtain ⟨⟨inner, left⟩, hinner, hsame⟩ := Option.map_eq_some_iff.mp h
      obtain ⟨rfl, rfl⟩ := Prod.mk.inj hsame
      cases before' with
      | nil =>
        have hbegins : mark ++ rest' = first :: text := htext
        rw [after?_eq_some_iff.mpr hbegins] at hnone
        cases hnone
      | cons _ before' => exact Nat.succ_le_succ (ih hinner before' (List.cons.inj htext).2)

/-- A text is cut at the first place where the mark stands. -/
theorem cut?_eq_some_iff :
    cut? mark text = some (before, rest) ↔ StandsFirst mark text before rest := by
  refine ⟨fun h ↦ ⟨append_of_cut? h, length_le_of_cut? h⟩, fun h ↦ ?_⟩
  have hsome := cut?_ne_none ⟨before, rest, h.append_eq⟩
  obtain ⟨⟨before', rest'⟩, hcut⟩ := Option.ne_none_iff_exists'.mp hsome
  rw [hcut, h.eq ⟨append_of_cut? hcut, length_le_of_cut? hcut⟩]

/-! ### Blanks -/

theorem dropWhile_eq_self {property : Char → Bool} (h : ∀ character ∈ word, ¬property character) :
    word.dropWhile property = word := by
  cases word with
  | nil => rfl
  | cons first others => exact List.dropWhile_cons_of_neg (h first List.mem_cons_self)

/-- A text is made up of blanks, what is left when it is trimmed, and blanks. -/
theorem exists_trim (text : List Char) :
    ∃ before after, before.all isBlank ∧ after.all isBlank ∧
      before ++ trim text ++ after = text := by
  refine ⟨text.takeWhile isBlank, ((trimStart text).reverse.takeWhile isBlank).reverse,
    List.all_takeWhile, ?_, ?_⟩
  · rw [List.all_reverse]
    exact List.all_takeWhile
  · rw [List.append_assoc, trim, trimEnd, dropEndWhile, ← List.reverse_append,
      List.takeWhile_append_dropWhile, List.reverse_reverse]
    exact List.takeWhile_append_dropWhile

theorem dropEndWhile_append {test : Char → Bool} (h : ∀ character ∈ after, test character)
    (text : List Char) : dropEndWhile test (text ++ after) = dropEndWhile test text := by
  have hreverse : ∀ character ∈ after.reverse, test character := by simpa using h
  rw [dropEndWhile, List.reverse_append, List.dropWhile_append_of_pos hreverse]
  rfl

/-- Blanks at the end are left out, also where the text is nothing but blanks. -/
theorem trim_append_blanks (h : after.all isBlank) (text : List Char) :
    trim (text ++ after) = trim text := by
  have hblank := List.all_eq_true.mp h
  rw [trim, trim, trimStart, trimStart, List.dropWhile_append]
  split
  · rename_i hall
    rw [List.isEmpty_iff.mp hall, List.dropWhile_eq_nil_iff.mpr hblank]
  · exact dropEndWhile_append hblank _

theorem trimEnd_eq_self (hword : ∀ character ∈ word, ¬isBlank character) : trimEnd word = word := by
  have hreverse : ∀ character ∈ word.reverse, ¬isBlank character := by simpa using hword
  rw [trimEnd, dropEndWhile, dropWhile_eq_self hreverse, List.reverse_reverse]

/-- A text without blanks is what is left of it between blanks. -/
theorem trim_append (hbefore : before.all isBlank) (hafter : after.all isBlank)
    (hword : ∀ character ∈ word, ¬isBlank character) : trim (before ++ word ++ after) = word := by
  have hstart : trimStart (before ++ word) = word := by
    rw [trimStart, List.dropWhile_append_of_pos (List.all_eq_true.mp hbefore),
      dropWhile_eq_self hword]
  rw [trim_append_blanks hafter, trim, hstart, trimEnd_eq_self hword]

/-- A text without blanks loses nothing. -/
theorem trim_eq_self (hword : ∀ character ∈ word, ¬isBlank character) : trim word = word := by
  have htrim := @trim_append [] word [] rfl rfl hword
  rwa [List.append_nil, List.nil_append] at htrim

end BeamCalc.Text
