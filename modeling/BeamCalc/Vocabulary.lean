import BeamCalc.Number.Reading

/-!
# Vocabularies

A `Vocabulary` gives meaning to the names and operator symbols of expressions: constants, functions
of one and of two arguments, operators. Constants and functions are different kinds of name, so one
name may be both; a function has one number of arguments, so defining a name in one of the two
function tables removes it from the other.
-/

set_option autoImplicit false
set_option relaxedAutoImplicit false

namespace BeamCalc

/-- A finite or infinite table from keys to meanings. -/
abbrev Table (key meaning : Type) := key → Option meaning

namespace Table

variable {key meaning : Type} [DecidableEq key]

/-- The table of a list of entries, of which the first for a key counts. -/
def ofList (entries : List (key × meaning)) : Table key meaning :=
  fun wanted ↦ (entries.find? fun entry ↦ entry.1 = wanted).map Prod.snd

/-- A table with one key given a meaning, or none. -/
def set (table : Table key meaning) (changed : key) (entry : Option meaning) : Table key meaning :=
  fun wanted ↦ if wanted = changed then entry else table wanted

@[simp] theorem set_same (table : Table key meaning) (changed : key) (entry : Option meaning) :
    table.set changed entry changed = entry := by
  simp [set]

@[simp] theorem set_other (table : Table key meaning) {changed wanted : key}
    (entry : Option meaning) (different : wanted ≠ changed) :
    table.set changed entry wanted = table wanted := by
  simp [set, different]

end Table

/-- The meanings of names and operator symbols. -/
structure Vocabulary where
  constant : Table String Float
  unary : Table String (Float → Float)
  binary : Table String (Float → Float → Float)
  operator : Table Char (Float → Float → Float)

namespace Vocabulary

/-- The greater of two numbers; what is no number loses against a number. -/
def greater (first second : Float) : Float :=
  if first.isNaN then second else if second.isNaN then first
  else if first < second then second else first

/-- The lesser of two numbers; what is no number loses against a number. -/
def lesser (first second : Float) : Float :=
  if first.isNaN then second else if second.isNaN then first
  else if second < first then second else first

/-- The binary64 number nearest to π. -/
def pi : Float := 3.141592653589793

/-- The constants of every vocabulary: multiples of π and e, factors between degrees and radians,
the masses of the electron and the proton in GeV and the speed of light in m/s. -/
def standardConstants : List (String × Float) :=
  [("pi", pi), ("twopi", 2 * pi), ("degrad", 180 / pi), ("raddeg", pi / 180),
    ("e", 2.718281828459045), ("emass", 0.51099906e-3), ("pmass", 0.93827231),
    ("clight", 2.99792458e8)]

/-- The functions of one argument of every vocabulary. -/
def standardUnary : List (String × (Float → Float)) :=
  [("sqrt", Float.sqrt), ("log", Float.log), ("exp", Float.exp), ("sin", Float.sin),
    ("cos", Float.cos), ("tan", Float.tan), ("asin", Float.asin), ("abs", Float.abs)]

/-- The functions of two arguments of every vocabulary. -/
def standardBinary : List (String × (Float → Float → Float)) :=
  [("max", greater), ("min", lesser)]

/-- The operators of every vocabulary. -/
def standardOperators : List (Char × (Float → Float → Float)) :=
  [('+', Float.add), ('-', Float.sub), ('*', Float.mul), ('/', Float.div), ('^', Float.pow)]

/-- The vocabulary to begin with. -/
def standard : Vocabulary where
  constant := .ofList standardConstants
  unary := .ofList standardUnary
  binary := .ofList standardBinary
  operator := .ofList standardOperators

/-- The vocabulary in which `name` is the constant `value`. -/
def addConstant (vocabulary : Vocabulary) (name : String) (value : Float) : Vocabulary :=
  { vocabulary with constant := vocabulary.constant.set name (some value) }

/-- The vocabulary in which `name` is a function of one argument. -/
def addUnary (vocabulary : Vocabulary) (name : String) (meaning : Float → Float) : Vocabulary :=
  { vocabulary with
    unary := vocabulary.unary.set name (some meaning)
    binary := vocabulary.binary.set name none }

/-- The vocabulary in which `name` is a function of two arguments. -/
def addBinary (vocabulary : Vocabulary) (name : String) (meaning : Float → Float → Float) :
    Vocabulary :=
  { vocabulary with
    unary := vocabulary.unary.set name none
    binary := vocabulary.binary.set name (some meaning) }

/-- Whether `name` is a function of two arguments. -/
def isBinary (vocabulary : Vocabulary) (name : String) : Bool :=
  (vocabulary.binary name).isSome

/-- The number of arguments that a call of `name` has. A name that is no function is called with
one. -/
def arity (vocabulary : Vocabulary) (name : String) : Nat :=
  if vocabulary.isBinary name then 2 else 1

end Vocabulary

end BeamCalc
