import BeamCalc.Proofs.Script.Lines
import Mathlib.Data.List.DropRight
import Mathlib.Logic.Relation

/-!
# Decoration of lines

A line may be given a comment, a margin on either side and semicolons at its end (`Decorates`). None
of this is part of its content (`content_of_decorates`). Semicolons need care, since the blanks
around a line are left out before them and the blanks in front of them after them: they are
neutral because the last visible character of the line is none of them, so that no more than the
new ones are dropped. As the lines below keep their numbers, a script makes the same statements
(`statements_of_decorated`), and it runs as before however often its lines are decorated
(`run_of_decorated`).
-/

set_option autoImplicit false
set_option relaxedAutoImplicit false

namespace BeamCalc

namespace Text

variable {text before after visible : List Char} {test : Char → Bool}

/-! ### What is left out at the end of a text -/

theorem dropEndWhile_eq_rdropWhile (test : Char → Bool) (text : List Char) :
    dropEndWhile test text = text.rdropWhile test :=
  rfl

/-- What has no blank stays at the end of a text. -/
theorem trimStart_append (h : ∀ character ∈ visible, ¬isBlank character) (text : List Char) :
    trimStart (text ++ visible) = trimStart text ++ visible := by
  rw [trimStart, trimStart, List.dropWhile_append]
  split
  · rename_i hall
    rw [List.isEmpty_iff.mp hall, dropWhile_eq_self h, List.nil_append]
  · rfl

theorem trimEnd_trim (text : List Char) : trimEnd (trim text) = trim text :=
  List.rdropWhile_idempotent isBlank (trimStart text)

/-! ### The last visible character -/

/-- The last character of a text that is not blank. -/
def lastVisible? (text : List Char) : Option Char :=
  (text.filter fun character ↦ !isBlank character).getLast?

/-- Blanks around a text do not change it. -/
theorem lastVisible?_append (hbefore : before.all isBlank) (hafter : after.all isBlank)
    (text : List Char) : lastVisible? (before ++ text ++ after) = lastVisible? text := by
  have hnone : ∀ blanks : List Char, blanks.all isBlank →
      blanks.filter (fun character ↦ !isBlank character) = [] := by
    intro blanks hblanks
    refine List.filter_eq_nil_iff.mpr fun character hcharacter ↦ ?_
    rw [List.all_eq_true.mp hblanks character hcharacter]
    exact Bool.false_ne_true
  rw [lastVisible?, List.filter_append, List.filter_append, hnone before hbefore,
    hnone after hafter, List.append_nil, List.nil_append]
  rfl

theorem lastVisible?_trimStart (text : List Char) :
    lastVisible? (trimStart text) = lastVisible? text := by
  have htext := @lastVisible?_append (text.takeWhile isBlank) [] List.all_takeWhile rfl
    (trimStart text)
  rw [List.append_nil, trimStart, List.takeWhile_append_dropWhile] at htext
  exact htext.symm

theorem lastVisible?_trim (text : List Char) : lastVisible? (trim text) = lastVisible? text := by
  obtain ⟨before, after, hbefore, hafter, htext⟩ := exists_trim text
  conv_rhs => rw [← htext]
  exact (lastVisible?_append hbefore hafter _).symm

/-- A text ends with no more than its last visible character. -/
theorem dropEndWhile_eq_self {mark : Char} (hmark : ¬isBlank mark)
    (h : lastVisible? text ≠ some mark) : dropEndWhile (· == mark) text = text := by
  rw [dropEndWhile_eq_rdropWhile, List.rdropWhile_eq_self_iff]
  intro hsome hlast
  refine h ?_
  rw [← List.dropLast_append_getLast hsome, lastVisible?, List.filter_append,
    beq_iff_eq.mp hlast]
  simp [hmark]

end Text

namespace Script

variable {line line' gap : List Char} {text text' : String}

/-! ### The content of a decorated line -/

/-- Blanks within a line. -/
def IsMargin (text : List Char) : Prop :=
  ∀ character ∈ text, Text.isBlank character ∧ character ≠ '\n'

theorem IsMargin.all_isBlank (h : IsMargin gap) : gap.all Text.isBlank :=
  List.all_eq_true.mpr fun character hcharacter ↦ (h character hcharacter).1

theorem IsMargin.not_mem {character : Char} (h : IsMargin gap)
    (hvisible : ¬Text.isBlank character) : character ∉ gap :=
  fun hmem ↦ hvisible (h character hmem).1

theorem IsMargin.not_mem_end (h : IsMargin gap) : '\n' ∉ gap :=
  fun hmem ↦ (h '\n' hmem).2 rfl

/-- What may be put around a line: a comment, blanks, or semicolons where no comment and no
semicolon is the end of the line. -/
inductive Decorates (line : List Char) : List Char → Prop where
  | comment {text : List Char} (htext : '\n' ∉ text) : Decorates line (line ++ '!' :: text)
  | leading {margin : List Char} (hmargin : IsMargin margin) : Decorates line (margin ++ line)
  | trailing {margin : List Char} (hmargin : IsMargin margin) : Decorates line (line ++ margin)
  | semicolons {gap : List Char} (count : Nat) (hcomment : '!' ∉ line)
      (hlast : Text.lastVisible? line ≠ some ';') (hgap : IsMargin gap) :
    Decorates line (line ++ gap ++ List.replicate count ';')

/-- A decorated line is one line. -/
theorem Decorates.not_mem_end (h : Decorates line line') (hline : '\n' ∉ line) : '\n' ∉ line' := by
  cases h with
  | comment htext => simp [hline, htext]
  | leading hmargin => simp [hline, hmargin.not_mem_end]
  | trailing hmargin => simp [hline, hmargin.not_mem_end]
  | semicolons count hcomment hlast hgap => simp [hline, hgap.not_mem_end]

/-- The content of a line without a comment. -/
theorem content_of_not_mem (h : '!' ∉ line) :
    content line = Text.trimEnd (Text.dropEndWhile (· == ';') (Text.trim line)) := by
  have hwhole : line.takeWhile (· != '!') = line := by
    refine List.takeWhile_eq_self_iff.mpr fun character hcharacter ↦ ?_
    exact bne_iff_ne.mpr (ne_of_mem_of_not_mem hcharacter h)
  rw [content, hwhole]

/-- A line whose last visible character is no semicolon loses the blanks around it only. -/
theorem content_eq_trim (hcomment : '!' ∉ line) (hlast : Text.lastVisible? line ≠ some ';') :
    content line = Text.trim line := by
  rw [← Text.lastVisible?_trim] at hlast
  rw [content_of_not_mem hcomment, Text.dropEndWhile_eq_self (by decide) hlast, Text.trimEnd_trim]

theorem content_append_comment (line text : List Char) :
    content (line ++ '!' :: text) = content line := by
  have hends : (line ++ '!' :: text).takeWhile (· != '!') = line.takeWhile (· != '!') := by
    rw [List.takeWhile_append]
    split
    · rename_i hall
      rw [(List.takeWhile_prefix _).eq_of_length hall]
      exact List.append_nil line
    · rfl
  rw [content, content, hends]

theorem content_margin_append (h : IsMargin gap) (line : List Char) :
    content (gap ++ line) = content line := by
  have hmark : ∀ character ∈ gap, character != '!' := fun character hcharacter ↦
    bne_iff_ne.mpr (ne_of_mem_of_not_mem hcharacter (h.not_mem (by decide)))
  have hblank := List.all_eq_true.mp h.all_isBlank
  rw [content, List.takeWhile_append_of_pos hmark, Text.trim, Text.trimStart,
    List.dropWhile_append_of_pos hblank]
  rfl

/-- Semicolons stand behind the blanks that a line ends with: the blanks are left out after them. -/
theorem content_append_semicolons (hcomment : '!' ∉ line)
    (hlast : Text.lastVisible? line ≠ some ';') (hgap : IsMargin gap) (count : Nat) :
    content (line ++ gap ++ List.replicate count ';') = content line := by
  cases count with
  | zero =>
    rw [List.replicate_zero, List.append_nil]
    exact content_append_blanks hgap.all_isBlank line
  | succ count =>
    have hsemicolon : ∀ character ∈ List.replicate (count + 1) ';', character = ';' :=
      fun _ hcharacter ↦ List.eq_of_mem_replicate hcharacter
    have hcomment' : '!' ∉ line ++ gap ++ List.replicate (count + 1) ';' := by
      simp [hcomment, hgap.not_mem (by decide : ¬Text.isBlank '!')]
    have htrim : Text.trim (line ++ gap ++ List.replicate (count + 1) ';') =
        Text.trimStart (line ++ gap) ++ List.replicate (count + 1) ';' := by
      have hvisible : ∀ character ∈ List.replicate (count + 1) ';', ¬Text.isBlank character := by
        intro character hcharacter
        rw [hsemicolon character hcharacter]
        decide
      rw [Text.trim, Text.trimStart_append hvisible, List.replicate_succ', ← List.append_assoc]
      exact List.rdropWhile_concat_neg _ _ _ (by decide)
    have hbody : Text.lastVisible? (Text.trimStart (line ++ gap)) ≠ some ';' := by
      have hblanks := @Text.lastVisible?_append [] gap rfl hgap.all_isBlank line
      rw [List.nil_append] at hblanks
      rwa [Text.lastVisible?_trimStart, hblanks]
    calc content (line ++ gap ++ List.replicate (count + 1) ';')
        = Text.trimEnd (Text.dropEndWhile (· == ';')
            (Text.trimStart (line ++ gap) ++ List.replicate (count + 1) ';')) := by
          rw [content_of_not_mem hcomment', htrim]
      _ = Text.trimEnd (Text.dropEndWhile (· == ';') (Text.trimStart (line ++ gap))) := by
          rw [Text.dropEndWhile_append fun character hcharacter ↦
            beq_iff_eq.mpr (hsemicolon character hcharacter)]
      _ = Text.trim (line ++ gap) := by
          rw [Text.dropEndWhile_eq_self (by decide) hbody]
          rfl
      _ = Text.trim line := Text.trim_append_blanks hgap.all_isBlank line
      _ = content line := (content_eq_trim hcomment hlast).symm

/-- A decorated line has the content of the line. -/
theorem content_of_decorates (h : Decorates line line') : content line' = content line := by
  cases h with
  | comment htext => exact content_append_comment line _
  | leading hmargin => exact content_margin_append hmargin line
  | trailing hmargin => exact content_append_blanks hmargin.all_isBlank line
  | semicolons count hcomment hlast hgap =>
    exact content_append_semicolons hcomment hlast hgap count

/-! ### Decorated scripts -/

/-- Scripts that differ in the decoration of one line. -/
def Decorated (text text' : String) : Prop :=
  ∃ above line line' below, IsLine above line below ∧ Decorates line.toList line'.toList ∧
    text = above ++ line ++ below ∧ text' = above ++ line' ++ below

/-- The decoration of a line changes no statement and no number. -/
theorem statements_of_decorated (h : Decorated text text') (first : Nat) :
    statements first text' = statements first text := by
  obtain ⟨above, line, line', below, hline, hdecorates, rfl, rfl⟩ := h
  obtain ⟨others, -, hstatements⟩ := hline.exists_statements first
  rw [hstatements line hline.whole, hstatements line' (hdecorates.not_mem_end hline.whole),
    statement?, statement?, content_of_decorates hdecorates]

/-- A script whose lines are decorated, one after the other and again, runs as it does without: it
has the same entries with the same numbers, the same bindings at the end and the same events. -/
theorem run_of_decorated (calculator : Calculator) (task : Task) (bindings : Bindings)
    (h : Relation.ReflTransGen Decorated text text') :
    run calculator task bindings text' = run calculator task bindings text := by
  induction h with
  | refl => rfl
  | tail hbefore hlast ih =>
    rw [← ih, run, run, statements_of_decorated hlast]

/-- Semicolons behind a blank, a comment behind them, and a margin before a line that fails. -/
theorem run_of_decorated_thrice :
    Relation.ReflTransGen Decorated "x = 2\n1/(\nx" "x = 2 ;;! half\n\t1/(\nx" ∧
      run {} .value .empty "x = 2 ;;! half\n\t1/(\nx" = run {} .value .empty "x = 2\n1/(\nx" := by
  have hsemicolons : Decorated "x = 2\n1/(\nx" "x = 2 ;;\n1/(\nx" := by
    have hline : IsLine "" "x = 2" "\n1/(\nx" :=
      ⟨.inl rfl, by decide, .inr (.inl ⟨"1/(\nx", by decide⟩)⟩
    have hgap : IsMargin [' '] := by simp [IsMargin, show Text.isBlank ' ' by decide]
    exact ⟨"", "x = 2", "x = 2 ;;", "\n1/(\nx", hline,
      .semicolons 2 (by decide) (by decide) hgap, by decide, by decide⟩
  have hcomment : Decorated "x = 2 ;;\n1/(\nx" "x = 2 ;;! half\n1/(\nx" := by
    have hline : IsLine "" "x = 2 ;;" "\n1/(\nx" :=
      ⟨.inl rfl, by decide, .inr (.inl ⟨"1/(\nx", by decide⟩)⟩
    have htext : '\n' ∉ " half".toList := by decide
    exact ⟨"", "x = 2 ;;", "x = 2 ;;! half", "\n1/(\nx", hline, .comment htext, by decide,
      by decide⟩
  have hmargin : Decorated "x = 2 ;;! half\n1/(\nx" "x = 2 ;;! half\n\t1/(\nx" := by
    have hline : IsLine "x = 2 ;;! half\n" "1/(" "\nx" :=
      ⟨.inr ⟨"x = 2 ;;! half", by decide⟩, by decide, .inr (.inl ⟨"x", by decide⟩)⟩
    have hgap : IsMargin ['\t'] := by simp [IsMargin, show Text.isBlank '\t' by decide]
    exact ⟨"x = 2 ;;! half\n", "1/(", "\t1/(", "\nx", hline, .leading hgap, by decide, by decide⟩
  have hdecorated := ((Relation.ReflTransGen.single hsemicolons).tail hcomment).tail hmargin
  exact ⟨hdecorated, run_of_decorated {} .value .empty hdecorated⟩

end Script

end BeamCalc
