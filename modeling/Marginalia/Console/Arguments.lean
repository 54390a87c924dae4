/-!
# Options and arguments

The words of a command line are options or arguments.

* a word that starts with a dash and is longer than that is an option. A long option has a name of
  its own and may carry its value behind an equals sign; short options are single characters that
  can share a word, the rest of which is the value of the first one that takes a value;
* an option that takes a value and has none in its word takes the next word, whatever it looks
  like;
* two dashes end the options. With `mixed` false, so does the first argument.

A word with an unknown option, a value for an option that takes none, and a missing value are
usage errors.
-/

namespace Marginalia.Console

/-! ## 1. One word -/

/-- An option of a command: the names it goes by, without their dashes, and whether it takes a
    value. A name of one character is short. -/
structure Flag (α : Type) where
  label : α
  long : List String
  short : List Char
  takesValue : Bool

/-- What a word with options says: the options with their values, and an option that takes the
    next word. -/
structure Reading (α : Type) where
  given : List (α × String)
  awaits : Option α

/-- Reads a long option, given what follows an equals sign. -/
def readLong? {α : Type} (f : Flag α) : Option String → Option (Reading α)
  | some v => if f.takesValue then some ⟨[(f.label, v)], none⟩ else none
  | none => if f.takesValue then some ⟨[], some f.label⟩ else some ⟨[(f.label, "")], none⟩

/-- Reads short options. -/
def readShort? {α : Type} (flags : List (Flag α)) : List Char → Option (Reading α)
  | [] => some ⟨[], none⟩
  | c :: rest => match flags.find? (·.short.contains c) with
    | none => none
    | some f =>
      if f.takesValue then
        if rest.isEmpty then some ⟨[], some f.label⟩
        else some ⟨[(f.label, String.ofList rest)], none⟩
      else (readShort? flags rest).map fun r => { r with given := (f.label, "") :: r.given }

/-- What stands behind the first equals sign. -/
def afterEquals (word : List Char) : Option String :=
  match word.dropWhile (· != '=') with
  | _ :: value => some (String.ofList value)
  | [] => none

/-- Reads a word that starts with a dash. -/
def readWord? {α : Type} (flags : List (Flag α)) : List Char → Option (Reading α)
  | '-' :: '-' :: word =>
    let name := String.ofList (word.takeWhile (· != '='))
    (flags.find? (·.long.contains name)).bind fun f => readLong? f (afterEquals word)
  | '-' :: word => readShort? flags word
  | _ => none

/-- Whether a word holds options. -/
def holdsOptions : List Char → Bool
  | '-' :: _ :: _ => true
  | _ => false

/-! ## 2. All words -/

/-- What a command line says: the options with their values in the order in which they are given,
    and the arguments. -/
structure Arguments (α : Type) where
  options : List (α × String)
  arguments : List String

/-- Adds options in front. -/
def Arguments.withOptions {α : Type} (a : Arguments α) (options : List (α × String)) :
    Arguments α :=
  { a with options := options ++ a.options }

/-- Adds an argument in front. -/
def Arguments.withArgument {α : Type} (a : Arguments α) (word : String) : Arguments α :=
  { a with arguments := word :: a.arguments }

/-- Reads words; `awaits` is an option that takes the next one. -/
def readFrom? {α : Type} (flags : List (Flag α)) (mixed : Bool) :
    (awaits : Option α) → List String → Option (Arguments α)
  | none, [] => some ⟨[], []⟩
  | some _, [] => none
  | some label, value :: more =>
    (readFrom? flags mixed none more).map (·.withOptions [(label, value)])
  | none, word :: more =>
    if word = "--" then some ⟨[], more⟩
    else if holdsOptions word.toList then
      (readWord? flags word.toList).bind fun r =>
        (readFrom? flags mixed r.awaits more).map (·.withOptions r.given)
    else if mixed then (readFrom? flags mixed none more).map (·.withArgument word)
    else some ⟨[], word :: more⟩

/-- Reads a command line. -/
def readArguments? {α : Type} (flags : List (Flag α)) (mixed : Bool) (words : List String) :
    Option (Arguments α) :=
  readFrom? flags mixed none words

namespace Arguments

variable {α : Type} [BEq α]

/-- Whether an option is given. -/
def has (a : Arguments α) (label : α) : Bool := a.options.any (·.1 == label)

/-- All values of an option. -/
def values (a : Arguments α) (label : α) : List String :=
  (a.options.filter (·.1 == label)).map (·.2)

/-- The last value of an option. -/
def last? (a : Arguments α) (label : α) : Option String := (a.values label).getLast?

end Arguments

end Marginalia.Console
