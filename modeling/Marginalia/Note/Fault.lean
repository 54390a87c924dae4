import Marginalia.Note.Value
import Marginalia.Number.Whole
import Marginalia.Text.Printable

/-!
# What can be wrong with an annotation

Every refusal is a cause, and every cause has one wording:

* `FieldFault`: a value that does not fit the field it is given for, with the way to it;
* `Fault`: what makes a doc-comment unreadable, from syntax to field values.
-/

namespace Marginalia

/-! ## 1. Values that do not fit -/

/-- Why a value does not fit. -/
inductive Misfit where
  | notText
  | notList
  | notNote (kind : Kind)
  | keyNotText
  | unknownAttribute
  | notFlag
  | unreadableFlag
  | notWhole
  | unreadableWhole
  | fractional
  | infinite
  | tooLarge
deriving DecidableEq, Repr

/-- The wording of a misfit. -/
def Misfit.message : Misfit → String
  | .notText => "Input should be a valid string"
  | .notList => "Input should be a valid list"
  | .notNote k => "Input should be a valid dictionary or instance of " ++ k.name
  | .keyNotText => "Keys should be strings"
  | .unknownAttribute => "Extra inputs are not permitted"
  | .notFlag => "Input should be a valid boolean"
  | .unreadableFlag => "Input should be a valid boolean, unable to interpret input"
  | .notWhole => "Input should be a valid integer"
  | .unreadableWhole => "Input should be a valid integer, unable to parse string as an integer"
  | .fractional => "Input should be a valid integer, got a number with a fractional part"
  | .infinite => "Input should be a finite number"
  | .tooLarge => "Unable to parse input string as an integer, exceeded maximum size"

/-- The code of a misfit. -/
def Misfit.code : Misfit → String
  | .notText => "string_type"
  | .notList => "list_type"
  | .notNote _ => "model_type"
  | .keyNotText => "invalid_key"
  | .unknownAttribute => "extra_forbidden"
  | .notFlag => "bool_type"
  | .unreadableFlag => "bool_parsing"
  | .notWhole => "int_type"
  | .unreadableWhole => "int_parsing"
  | .fractional => "int_from_float"
  | .infinite => "finite_number"
  | .tooLarge => "int_parsing_size"

/-- One step on the way to a value. -/
inductive Step where
  | attribute (name : String)
  | index (n : Nat)
deriving DecidableEq, Repr

/-- The text of a step; a name with a dot in it is marked, since dots join the steps. -/
def Step.text : Step → String
  | .attribute name => if name.toList.contains '.' then "`" ++ name ++ "`" else name
  | .index n => String.ofList (Text.natDigits n)

/-- A value that does not fit: the way to it, why, and the type it has. -/
structure FieldFault where
  path : List Step
  misfit : Misfit
  given : String
deriving DecidableEq, Repr

/-- The same fault seen from one step further out. -/
def FieldFault.under (step : Step) (fault : FieldFault) : FieldFault :=
  { fault with path := step :: fault.path }

/-- The two lines that report a field fault. -/
def FieldFault.message (fault : FieldFault) : String :=
  String.intercalate "." (fault.path.map Step.text) ++ "\n  " ++ fault.misfit.message ++
    " [type=" ++ fault.misfit.code ++ ", input_type=" ++ fault.given ++ "]"

/-! ## 2. Comments that cannot be read -/

/-- The terminals of annotation expressions. -/
inductive Terminal where
  | at
  | lpar
  | rpar
  | comma
  | equal
  | lbrace
  | rbrace
  | colon
  | name
  | string
  | number
deriving DecidableEq, Repr

/-- How messages name a terminal. -/
def Terminal.label : Terminal → String
  | .at => "AT"
  | .lpar => "LPAR"
  | .rpar => "RPAR"
  | .comma => "COMMA"
  | .equal => "EQUAL"
  | .lbrace => "LBRACE"
  | .rbrace => "RBRACE"
  | .colon => "COLON"
  | .name => "NAME"
  | .string => "STRING"
  | .number => "NUMBER"

/-- A position in a text, line and column counted from one. -/
structure Position where
  line : Nat
  column : Nat
deriving DecidableEq, Repr

/-- The position after a character: lines end at a line feed. -/
def Position.after (p : Position) (c : Char) : Position :=
  if c = '\n' then ⟨p.line + 1, 1⟩ else ⟨p.line, p.column + 1⟩

/-- The position of the first character. -/
def Position.start : Position := ⟨1, 1⟩

/-- The text of a natural number. -/
def natText (n : Nat) : String := String.ofList (Text.natDigits n)

/-- What makes a doc-comment unreadable. -/
inductive Fault where
  /-- A name in the annotation namespace that names no annotation. -/
  | unknownNote (name : String)
  /-- An argument list that is never closed. -/
  | unclosed (name : String)
  /-- A token that cannot stand where it stands. -/
  | unexpectedToken (terminal : Terminal) (text : String) (place : Position)
  /-- The text ends where an expression has to go on. -/
  | unexpectedEnd (place : Position)
  /-- A character that starts no token. -/
  | unexpectedChar (c : Char) (place : Position)
  /-- An annotation nested in one that has no place for it. -/
  | misplaced (inner outer : Kind)
  /-- A value without a name in an annotation that has no default field. -/
  | unnamedValue (kind : Kind)
  /-- Nested annotations for a field that was given something other than a list. -/
  | notExtensible (typeName : String)
  /-- A whole number with more digits than are read. -/
  | tooManyDigits (count : Nat)
  /-- Values that do not fit their fields. -/
  | invalid (kind : Kind) (faults : List FieldFault)
deriving Repr

/-- The wording of a fault. -/
def Fault.message : Fault → String
  | .unknownNote name =>
    "[Semantical Error] The annotation \"@" ++ name ++ "\" does not exist"
  | .unclosed name => "[Syntax Error] Expected ')' to close @" ++ name ++ "("
  | .unexpectedToken terminal text place =>
    "[Syntax Error] Unexpected token Token('" ++ terminal.label ++ "', " ++ Text.quoted text ++
      ") at line " ++ natText place.line ++ ", column " ++ natText place.column ++ "."
  | .unexpectedEnd place =>
    "[Syntax Error] Unexpected token Token('$END', '') at line " ++ natText place.line ++
      ", column " ++ natText place.column ++ "."
  | .unexpectedChar c place =>
    "[Syntax Error] No terminal matches '" ++ String.singleton c ++
      "' in the current parser context, at line " ++ natText place.line ++ " col " ++
      natText place.column
  | .misplaced inner outer => "Unexpected " ++ inner.tag ++ " inside " ++ outer.tag
  | .unnamedValue kind => kind.tag ++ " does not accept an unnamed value"
  | .notExtensible typeName => "'" ++ typeName ++ "' object has no attribute 'extend'"
  | .tooManyDigits count =>
    "Exceeds the limit (" ++ natText Number.maxDigits ++
      " digits) for integer string conversion: value has " ++ natText count ++
      " digits; use sys.set_int_max_str_digits() to increase the limit"
  | .invalid kind faults =>
    "Invalid " ++ kind.tag ++ ": " ++ natText faults.length ++
      (if faults.length = 1 then " validation error for " else " validation errors for ") ++
      String.intercalate "\n" (kind.name :: faults.map FieldFault.message)

end Marginalia
