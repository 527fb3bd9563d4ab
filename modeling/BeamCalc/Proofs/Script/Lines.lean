import BeamCalc.Proofs.Text.Cut
import BeamCalc.Script

/-!
# Lines of a script

A script is run line after line. What a line does depends on its content, on its number and on the
bindings that the lines above it leave: the statements of a text are those of the lines above, of
the line and of the lines below (`IsLine.exists_statements`), and the run of a list of statements is
a run of its beginning followed by one of its end (`runStatements_append`). Every statement makes
one entry with its number, and the numbers ascend (`pairwise_line_entries`).
-/

set_option autoImplicit false
set_option relaxedAutoImplicit false

namespace BeamCalc

namespace Text

variable {separator : Char} {text : List Char}

/-- A text without separators is one piece. -/
theorem segments_of_not_mem (h : separator ∉ text) : segments separator text = [text] := by
  induction text with
  | nil => rfl
  | cons first text ih =>
    obtain ⟨hfirst, htext⟩ := not_or.mp (mt List.mem_cons.mpr h)
    rw [segments, if_neg (Ne.symm hfirst), ih htext]

theorem length_segments (separator : Char) (text : List Char) :
    (segments separator text).length = text.count separator + 1 := by
  induction text with
  | nil => rfl
  | cons first text ih =>
    rw [segments]
    split
    · rename_i hfirst
      rw [List.length_cons, ih, hfirst, List.count_cons_self]
    · rename_i hfirst
      rw [List.count_cons_of_ne hfirst, ← ih]
      cases hsegments : segments separator text with
      | nil => exact absurd hsegments (segments_ne_nil separator text)
      | cons segment others => rfl

end Text

namespace Script

/-! ### The statements of a text -/

/-- Blanks at the end of a line make no difference, whether a comment comes before them or not. -/
theorem content_append_blanks {blanks : List Char} (h : blanks.all Text.isBlank)
    (line : List Char) : content (line ++ blanks) = content line := by
  have hmark : ∀ character ∈ blanks, character != '!' := by
    intro character hcharacter
    refine bne_iff_ne.mpr ?_
    rintro rfl
    exact absurd (List.all_eq_true.mp h _ hcharacter) (by decide)
  unfold content
  rw [List.takeWhile_append]
  split
  · rename_i hall
    have hline : line.takeWhile (· != '!') = line :=
      (List.takeWhile_prefix _).eq_of_length hall
    rw [hline, List.takeWhile_eq_self_iff.mpr hmark, Text.trim_append_blanks h]
  · rfl

/-- The numbered statement that a line makes, if it makes one. -/
def statement? (number : Nat) (line : List Char) : Option (Nat × String) :=
  if isStatement (content line) then some (number, String.ofList (content line)) else none

theorem statement?_nil (number : Nat) : statement? number [] = none := by
  rfl

theorem statement?_append_return (number : Nat) (line : List Char) :
    statement? number (line ++ ['\r']) = statement? number line := by
  rw [statement?, statement?, content_append_blanks (by decide)]

theorem statements_eq (first : Nat) (text : String) :
    statements first text = ((Text.segments '\n' text.toList).zipIdx first).filterMap
      fun (line, number) ↦ statement? number line :=
  rfl

/-- The number of the first line below a text that ends with a line. -/
def lineBelow (first : Nat) (text : String) : Nat :=
  first + text.toList.count '\n'

/-- A text that is empty or ends with a line end. -/
def EndsLine (text : String) : Prop :=
  text = "" ∨ ∃ others, text = others ++ "\n"

/-- A line end, of one character or of two. -/
def IsLineEnd (text : String) : Prop :=
  text = "\n" ∨ text = "\r\n"

/-- A text that is empty or begins with a line end, of one character or of two. -/
def BeginsWithEnd (text : String) : Prop :=
  text = "" ∨ (∃ others, text = "\n" ++ others) ∨ ∃ others, text = "\r\n" ++ others

/-- The text `above ++ line ++ below` has `line` as one of its lines. -/
structure IsLine (above line below : String) : Prop where
  starts : EndsLine above
  whole : '\n' ∉ line.toList
  ends : BeginsWithEnd below

/-- The line end at the end of a text begins no further statement. -/
theorem statements_append_end (first : Nat) (text : String) :
    statements first (text ++ "\n") = statements first text := by
  have htext : (text ++ "\n").toList = text.toList ++ '\n' :: [] := String.toList_append
  rw [statements_eq, statements_eq, htext, Text.segments_append_cons, List.zipIdx_append,
    List.filterMap_append]
  simp [Text.segments, statement?_nil]

theorem lineBelow_append_end (first : Nat) (text : String) :
    lineBelow first (text ++ "\n") = first + (Text.segments '\n' text.toList).length := by
  rw [lineBelow, Text.length_segments, String.toList_append, List.count_append]
  rfl

/-- The statements of two texts of which the second begins with a line. -/
theorem statements_append {above : String} (h : EndsLine above) (first : Nat) (below : String) :
    statements first (above ++ below) =
      statements first above ++ statements (lineBelow first above) below := by
  rcases h with rfl | ⟨text, rfl⟩
  · rw [String.empty_append]
    rfl
  · have hwhole : (text ++ "\n" ++ below).toList = text.toList ++ '\n' :: below.toList := by
      rw [String.toList_append, String.toList_append, List.append_assoc]
      rfl
    rw [statements_append_end, lineBelow_append_end, statements_eq, hwhole,
      Text.segments_append_cons, List.zipIdx_append, List.filterMap_append]
    rfl

/-- A line at the end of a text. -/
theorem statements_of_not_mem {line : String} (h : '\n' ∉ line.toList) (number : Nat) :
    statements number line = (statement? number line.toList).toList := by
  rw [statements_eq, Text.segments_of_not_mem h]
  cases hline : statement? number line.toList <;> simp [hline]

/-- A line that ends with a line feed and the text below it. -/
theorem statements_append_end_append {line : String} (h : '\n' ∉ line.toList) (number : Nat)
    (below : String) :
    statements number (line ++ "\n" ++ below) =
      (statement? number line.toList).toList ++ statements (number + 1) below := by
  have hends : EndsLine (line ++ "\n") := Or.inr ⟨line, rfl⟩
  rw [statements_append hends, statements_append_end, statements_of_not_mem h,
    lineBelow_append_end, Text.segments_of_not_mem h]
  rfl

/-- A line, its end and the text below it. -/
theorem statements_append_lineEnd_append {line ending : String} (hline : '\n' ∉ line.toList)
    (hending : IsLineEnd ending) (number : Nat) (below : String) :
    statements number (line ++ ending ++ below) =
      (statement? number line.toList).toList ++ statements (number + 1) below := by
  rcases hending with rfl | rfl
  · exact statements_append_end_append hline number below
  · -- The carriage return counts as a blank at the end of the line.
    have hreturn : (line ++ "\r").toList = line.toList ++ ['\r'] := String.toList_append
    have hline' : '\n' ∉ (line ++ "\r").toList := by
      rw [hreturn, List.mem_append, not_or]
      exact ⟨hline, by decide⟩
    have hending : "\r\n" = "\r" ++ "\n" := by decide
    rw [hending, ← String.append_assoc, statements_append_end_append hline', hreturn,
      statement?_append_return]

/-- The text below a line makes the same statements whatever the line is. -/
theorem exists_statements_append {below : String} (h : BeginsWithEnd below) :
    ∃ others : String, ∀ (number : Nat) (line : String), '\n' ∉ line.toList →
      statements number (line ++ below) =
        (statement? number line.toList).toList ++ statements (number + 1) others := by
  rcases h with rfl | ⟨others, rfl⟩ | ⟨others, rfl⟩
  · refine ⟨"", fun number line hline ↦ ?_⟩
    rw [String.append_empty, statements_of_not_mem hline]
    exact (List.append_nil _).symm
  · refine ⟨others, fun number line hline ↦ ?_⟩
    rw [← String.append_assoc, statements_append_lineEnd_append hline (Or.inl rfl)]
  · refine ⟨others, fun number line hline ↦ ?_⟩
    rw [← String.append_assoc, statements_append_lineEnd_append hline (Or.inr rfl)]

/-! ### The numbers of the statements -/

theorem fst_of_mem_statement? {number : Nat} {line : List Char} {statement : Nat × String}
    (h : statement ∈ statement? number line) : statement.1 = number := by
  unfold statement? at h
  split at h
  · cases h
    rfl
  · cases h

/-- The numbers of the statements of a text ascend. -/
theorem pairwise_fst_statements (first : Nat) (text : String) :
    (statements first text).Pairwise fun statement later ↦ statement.1 < later.1 := by
  rw [statements_eq, List.pairwise_filterMap]
  have hnumbers : ((Text.segments '\n' text.toList).zipIdx first).Pairwise
      fun line later ↦ line.2 < later.2 := by
    rw [← List.pairwise_map, List.zipIdx_map_snd]
    exact List.pairwise_lt_range'
  refine hnumbers.imp fun {line later} hless statement hstatement other hother ↦ ?_
  rw [fst_of_mem_statement? hstatement, fst_of_mem_statement? hother]
  exact hless

theorem le_fst_of_mem_statements {first : Nat} {text : String} {statement : Nat × String}
    (h : statement ∈ statements first text) : first ≤ statement.1 := by
  rw [statements_eq, List.mem_filterMap] at h
  obtain ⟨⟨line, number⟩, hline, hstatement⟩ := h
  rw [fst_of_mem_statement? hstatement]
  exact (List.mem_zipIdx hline).1

/-- The statements above a line have smaller numbers. -/
theorem fst_lt_of_mem_statements {first : Nat} {above : String} (hends : EndsLine above)
    {statement : Nat × String} (h : statement ∈ statements first above) :
    statement.1 < lineBelow first above := by
  rcases hends with rfl | ⟨text, rfl⟩
  · exact absurd h List.not_mem_nil
  · rw [statements_append_end, statements_eq, List.mem_filterMap] at h
    obtain ⟨⟨line, number⟩, hline, hstatement⟩ := h
    rw [fst_of_mem_statement? hstatement, lineBelow_append_end]
    exact (List.mem_zipIdx hline).2.1

/-! ### A line among others -/

/-- The statements of a text are those of the lines above a line, of the line and of the lines
below. The latter have greater numbers and do not depend on the line. -/
theorem IsLine.exists_statements {above line below : String} (h : IsLine above line below)
    (first : Nat) :
    ∃ others, (∀ statement ∈ others, lineBelow first above < statement.1) ∧
      ∀ line', '\n' ∉ line'.toList → statements first (above ++ line' ++ below) =
        statements first above ++ (statement? (lineBelow first above) line'.toList).toList ++
          others := by
  obtain ⟨others, hothers⟩ := exists_statements_append h.ends
  refine ⟨statements (lineBelow first above + 1) others, fun statement hstatement ↦ ?_,
    fun line' hline' ↦ ?_⟩
  · exact le_fst_of_mem_statements hstatement
  · rw [String.append_assoc, statements_append h.starts, hothers _ _ hline', List.append_assoc]

/-! ### Runs of statements -/

/-- A run followed by one from the bindings that it leaves. -/
def Run.andThen (first : Run) (next : Bindings → Run) : Run :=
  ⟨first.entries ++ (next first.bindings).entries, (next first.bindings).bindings,
    first.events ++ (next first.bindings).events⟩

@[simp] theorem Run.entries_andThen (first : Run) (next : Bindings → Run) :
    (first.andThen next).entries = first.entries ++ (next first.bindings).entries := rfl

@[simp] theorem Run.bindings_andThen (first : Run) (next : Bindings → Run) :
    (first.andThen next).bindings = (next first.bindings).bindings := rfl

variable (calculator : Calculator) (task : Task)

/-- Statements one after the other. -/
theorem runStatements_append (bindings : Bindings) (first second : List (Nat × String)) :
    runStatements calculator task bindings (first ++ second) =
      (runStatements calculator task bindings first).andThen
        (runStatements calculator task · second) := by
  induction first generalizing bindings with
  | nil => rfl
  | cons statement others ih =>
    obtain ⟨line, content⟩ := statement
    rw [List.cons_append, runStatements, runStatements]
    simp only [ih, Run.andThen, List.append_assoc]

/-- A statement makes one entry, with its number. -/
theorem map_line_entries_step (bindings : Bindings) (line : Nat) (content : String) :
    (step calculator task bindings line content).entries.map Entry.line = [line] := by
  unfold step
  dsimp only
  split <;> rfl

/-- Every statement makes one entry, with its number. -/
theorem map_line_entries_runStatements (bindings : Bindings) (statements : List (Nat × String)) :
    (runStatements calculator task bindings statements).entries.map Entry.line =
      statements.map Prod.fst := by
  induction statements generalizing bindings with
  | nil => rfl
  | cons statement others ih =>
    obtain ⟨line, content⟩ := statement
    simp only [runStatements, List.map_append, map_line_entries_step, ih, List.map_cons,
      List.singleton_append]

/-- The numbers of the entries of a script ascend. -/
theorem pairwise_line_entries (bindings : Bindings) (text : String) :
    (run calculator task bindings text).entries.Pairwise
      fun entry later ↦ entry.line < later.line := by
  have hnumbers := pairwise_fst_statements 1 text
  rw [← List.pairwise_map, ← map_line_entries_runStatements calculator task bindings,
    List.pairwise_map] at hnumbers
  exact hnumbers

end Script

end BeamCalc
