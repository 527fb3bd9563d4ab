import BeamCalc.Vocabulary

/-!
# Variable bindings

`Bindings` is a finite map from names to numbers. Its entries stand in the order of their names, so
maps with the same values are equal (`ext_get?`). `get?_insert` and `get?_erase` say what the
operations do to the values.
-/

set_option autoImplicit false
set_option relaxedAutoImplicit false

namespace BeamCalc

/-- The values of variables, in the order of their names, each name once. -/
structure Bindings where
  entries : List (String × Float)
  ordered : entries.Pairwise fun first second ↦ first.1 < second.1

namespace Bindings

/-- Two names that are not in order one way are equal or in order the other way. -/
theorem name_lt_of_not_lt {first second : String} (unordered : ¬ first < second)
    (different : first ≠ second) : second < first := by
  rcases Std.lt_trichotomy first second with h | h | h
  · exact absurd h unordered
  · exact absurd h different
  · exact h

/-- Entries in order with one name given a value. -/
def insertEntry (name : String) (value : Float) : List (String × Float) → List (String × Float)
  | [] => [(name, value)]
  | entry :: others =>
    if name < entry.1 then (name, value) :: entry :: others
    else if name = entry.1 then (name, value) :: others
    else entry :: insertEntry name value others

theorem mem_insertEntry {name : String} {value : Float} {entries : List (String × Float)}
    {found : String × Float} (h : found ∈ insertEntry name value entries) :
    found = (name, value) ∨ found ∈ entries := by
  induction entries with
  | nil => simpa [insertEntry] using h
  | cons entry others ih =>
    simp only [insertEntry] at h
    split at h
    · simpa using h
    · split at h
      · rcases List.mem_cons.mp h with h | h
        · exact .inl h
        · exact .inr (List.mem_cons_of_mem _ h)
      · rcases List.mem_cons.mp h with h | h
        · exact .inr (h ▸ List.mem_cons_self)
        · exact (ih h).imp_right (List.mem_cons_of_mem _)

theorem insertEntry_ordered (name : String) (value : Float) {entries : List (String × Float)}
    (ordered : entries.Pairwise fun first second ↦ first.1 < second.1) :
    (insertEntry name value entries).Pairwise fun first second ↦ first.1 < second.1 := by
  induction entries with
  | nil => simp [insertEntry]
  | cons entry others ih =>
    have ⟨first, rest⟩ := List.pairwise_cons.mp ordered
    simp only [insertEntry]
    split
    · rename_i smaller
      refine List.pairwise_cons.mpr ⟨fun other member ↦ ?_, ordered⟩
      rcases List.mem_cons.mp member with rfl | member
      · exact smaller
      · exact Std.lt_trans smaller (first other member)
    · split
      · rename_i same
        exact List.pairwise_cons.mpr ⟨fun other member ↦ same ▸ first other member, rest⟩
      · rename_i larger different
        refine List.pairwise_cons.mpr ⟨fun other member ↦ ?_, ih rest⟩
        rcases mem_insertEntry member with rfl | member
        · exact name_lt_of_not_lt larger different
        · exact first other member

/-- No variable has a value. -/
def empty : Bindings := ⟨[], .nil⟩

/-- The value of a variable. -/
def get? (bindings : Bindings) (name : String) : Option Float :=
  bindings.entries.lookup name

/-- The bindings in which `name` has the value `value`. -/
def insert (bindings : Bindings) (name : String) (value : Float) : Bindings :=
  ⟨insertEntry name value bindings.entries, insertEntry_ordered name value bindings.ordered⟩

/-- The bindings in which `name` has no value. -/
def erase (bindings : Bindings) (name : String) : Bindings :=
  ⟨bindings.entries.filter fun entry ↦ entry.1 ≠ name, bindings.ordered.filter _⟩

/-- The bindings of a list, in which the last value of a name counts. -/
def ofList (entries : List (String × Float)) : Bindings :=
  entries.foldl (fun bindings entry ↦ bindings.insert entry.1 entry.2) empty

theorem lookup_cons_eq_ite (wanted : String) (entry : String × Float)
    (others : List (String × Float)) :
    (entry :: others).lookup wanted = if wanted = entry.1 then some entry.2
      else others.lookup wanted := by
  rw [List.lookup_cons]
  split <;> simp_all

/-- A value given to one name is the value of that name and of no other. -/
theorem get?_insert (bindings : Bindings) (name wanted : String) (value : Float) :
    (bindings.insert name value).get? wanted =
      if wanted = name then some value else bindings.get? wanted := by
  obtain ⟨entries, ordered⟩ := bindings
  simp only [insert, get?]
  clear ordered
  induction entries with
  | nil => simp [insertEntry, lookup_cons_eq_ite]
  | cons entry others ih =>
    simp only [insertEntry]
    split
    · simp [lookup_cons_eq_ite]
    · split <;> grind [lookup_cons_eq_ite]

/-- A name taken out has no value, and every other name has the value it had. -/
theorem get?_erase (bindings : Bindings) (name wanted : String) :
    (bindings.erase name).get? wanted = if wanted = name then none else bindings.get? wanted := by
  obtain ⟨entries, ordered⟩ := bindings
  simp only [erase, get?]
  clear ordered
  induction entries with
  | nil => simp
  | cons entry others ih => grind [lookup_cons_eq_ite]

theorem lookup_eq_none_of_lt {name : String} {entries : List (String × Float)}
    (later : ∀ entry ∈ entries, name < entry.1) : entries.lookup name = none := by
  induction entries with
  | nil => rfl
  | cons entry others ih =>
    have different : name ≠ entry.1 := Std.ne_of_lt (later entry List.mem_cons_self)
    rw [lookup_cons_eq_ite, if_neg different]
    exact ih fun other member ↦ later other (List.mem_cons_of_mem _ member)

theorem entries_eq_of_lookup_eq {first second : List (String × Float)}
    (firstOrdered : first.Pairwise fun one other ↦ one.1 < other.1)
    (secondOrdered : second.Pairwise fun one other ↦ one.1 < other.1)
    (same : ∀ name, first.lookup name = second.lookup name) : first = second := by
  induction first generalizing second with
  | nil =>
    cases second with
    | nil => rfl
    | cons entry others => simpa [lookup_cons_eq_ite] using same entry.1
  | cons entry others ih =>
    obtain ⟨later, ordered⟩ := List.pairwise_cons.mp firstOrdered
    cases second with
    | nil => simpa [lookup_cons_eq_ite] using same entry.1
    | cons entry' others' =>
      obtain ⟨later', ordered'⟩ := List.pairwise_cons.mp secondOrdered
      have sameName : entry.1 = entry'.1 := by
        rcases Std.lt_trichotomy entry.1 entry'.1 with before | equal | before
        · have absent := lookup_eq_none_of_lt
            (fun other member ↦ Std.lt_trans before (later' other member))
          have := same entry.1
          rw [lookup_cons_eq_ite, lookup_cons_eq_ite, if_pos rfl, if_neg (Std.ne_of_lt before),
            absent] at this
          simp at this
        · exact equal
        · have absent := lookup_eq_none_of_lt
            (fun other member ↦ Std.lt_trans before (later other member))
          have := same entry'.1
          rw [lookup_cons_eq_ite, lookup_cons_eq_ite, if_pos rfl, if_neg (Std.ne_of_lt before),
            absent] at this
          simp at this
      have sameValue : entry.2 = entry'.2 := by
        have := same entry.1
        simpa [lookup_cons_eq_ite, sameName] using this
      obtain rfl : entry = entry' := Prod.ext sameName sameValue
      congr 1
      refine ih ordered ordered' fun name ↦ ?_
      by_cases h : name = entry.1
      · rw [h, lookup_eq_none_of_lt later, lookup_eq_none_of_lt later']
      · simpa [lookup_cons_eq_ite, h] using same name

/-- Bindings that give every name the same value are equal. -/
theorem ext_get? {first second : Bindings} (same : ∀ name, first.get? name = second.get? name) :
    first = second := by
  obtain ⟨entries, ordered⟩ := first
  obtain ⟨entries', ordered'⟩ := second
  congr
  exact entries_eq_of_lookup_eq ordered ordered' same

/-- Values given to two different names may be given in either order. -/
theorem insert_comm (bindings : Bindings) {name other : String} (different : name ≠ other)
    (value value' : Float) :
    (bindings.insert name value).insert other value' =
      (bindings.insert other value').insert name value := by
  refine ext_get? fun wanted ↦ ?_
  simp only [get?_insert]
  split <;> split <;> simp_all

end Bindings

end BeamCalc
