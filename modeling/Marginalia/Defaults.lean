import Marginalia.Name
import Marginalia.Note.Value
import Marginalia.Text.Blank
import Marginalia.Text.Word

/-!
# What a declaration says for its annotations

An annotation that leaves something unsaid takes it from the declaration its comment stands at:

* a resource takes its path from the class, a model its id, and both ends of the inheritance;
* an API takes its path from the current resource and the method, its operations take the method's
  name as their nickname;
* a property takes its name from the variable and its type from the comment's `@var` tag.

An explicit value is never replaced, except for where a model was declared.
-/

namespace Marginalia

/-! ## 1. Names of paths -/

/-- A text with its first character in lower case. -/
def lowerFirst (s : String) : String :=
  match s.toList with
  | [] => ""
  | c :: rest => String.ofList (Text.lower [c] ++ rest)

/-- Whether a character is a given small letter in any case; the letter i also has its dotted
    capital and its dotless form. -/
def isLetter (small c : Char) : Bool :=
  c.toLower = small || (small = 'i' && (c = '\u0130' || c = '\u0131'))

/-- Whether a text is a given word of small letters in any case. -/
def isWordInAnyCase : List Char → List Char → Bool
  | [], [] => true
  | s :: small, c :: text => isLetter s c && isWordInAnyCase small text
  | _, _ => false

/-- A text without a given word at its end, in any case; a line feed may follow the word. -/
def dropEnding (word : String) (s : String) : String :=
  let w := word.toList
  let (body, newline) := match s.toList.reverse with
    | '\n' :: rest => (rest.reverse, ['\n'])
    | _ => (s.toList, [])
  let kept := body.length - w.length
  if w.length ≤ body.length && isWordInAnyCase w (body.drop kept) then
    String.ofList (body.take kept ++ newline)
  else s

/-- The path of a resource that a class declares. -/
def resourcePathFor (typeName : String) : String :=
  dropEnding "controller" ("/" ++ lowerFirst (basename typeName))

/-- The path of an API that a method declares. -/
def apiPathFor (resourcePath method : String) : String :=
  resourcePath ++ "/" ++ dropEnding "action" method

/-! ## 2. Types of properties -/

/-- The names of types, in lower case, with the names that descriptions use for them. -/
def typeAliases : List (String × String) :=
  [("array", "Array"), ("byte", "byte"), ("boolean", "boolean"), ("bool", "boolean"),
    ("int", "int"), ("integer", "int"), ("long", "long"), ("float", "float"),
    ("double", "double"), ("string", "string"), ("date", "Date"), ("datetime", "Date"),
    ("\\datetime", "Date"), ("list", "List"), ("set", "Set")]

/-- The name that descriptions use for a type. -/
def normalizeType (type : String) : String :=
  (typeAliases.lookup (Text.lowercase type)).getD type

/-- The longest continuation of a type: characters of words, and separators that one follows. -/
def typeTail : List Char → List Char
  | [] => []
  | '\\' :: c :: rest => if Text.isWord c then '\\' :: c :: typeTail rest else []
  | c :: rest => if Text.isWord c then c :: typeTail rest else []

/-- The type in front of a text. -/
def typeInFront? : List Char → Option (List Char)
  | '\\' :: c :: rest => if Text.isWord c then some ('\\' :: c :: typeTail rest) else none
  | c :: rest => if Text.isWord c then some (c :: typeTail rest) else none
  | [] => none

/-- The type named by a `@var` tag in front of a text. -/
def varTagInFront? (text : List Char) : Option (List Char) :=
  if isWordInAnyCase ['@', 'v', 'a', 'r'] (text.take 4) then
    match text.drop 4 with
    | c :: rest => if Text.isBlank c then typeInFront? (Text.trimLeft rest) else none
    | [] => none
  else none

/-- The type named by the first `@var` tag that names one. -/
def varTag? : List Char → Option (List Char)
  | [] => none
  | c :: rest => (varTagInFront? (c :: rest)).or (varTag? rest)

/-- The type that a comment names, if any. -/
def typeFromComment? (comment : String) : Option String :=
  (varTag? comment.toList).map fun t => normalizeType (String.ofList t)

/-! ## 3. Filling annotations in -/

/-- What a comment stands at. -/
inductive Target where
  /-- No declaration. -/
  | unattached
  /-- A class with its full name and the full name of its parent. -/
  | type (fullName : String) (parent : Option String)
  | property (name : String)
  | method (name : String)
deriving DecidableEq, Repr

/-- What a class says for an annotation. -/
def Note.fillFromType (fullName : String) (parent : Option String) (a : Note) : Note :=
  match a.kind with
  | .resource => a.fill .resourcePath (.text (resourcePathFor fullName))
  | .model =>
    ((a.set .declaringClass (.text fullName)).fill .id (.text (basename fullName))).set .parentClass
      (.ofText? parent)
  | _ => a

/-- Fills the nickname of an operation in. -/
def fillNickname (method : String) : Value → Value
  | .note o => .note (o.fill .nickname (.text method))
  | v => v

/-- What a method says for an annotation, given the path of the current resource. -/
def Note.fillFromMethod (method : String) (resourcePath : Option String) (a : Note) : Note :=
  match a.kind with
  | .api =>
    let withPath := match resourcePath with
      | some path => if path = "" then a else a.fill .path (.text (apiPathFor path method))
      | none => a
    withPath.set .operations (.list ((withPath.get .operations).items.map (fillNickname method)))
  | _ => a

/-- What a property says for an annotation. -/
def Note.fillFromProperty (name comment : String) (a : Note) : Note :=
  match a.kind with
  | .property =>
    (a.fill .name (.text name)).fill .type (.ofText? (typeFromComment? comment))
  | _ => a

/-- What the target of a comment says for an annotation of it. -/
def Note.fillFrom (target : Target) (comment : String) (resourcePath : Option String) (a : Note) :
    Note :=
  match target with
  | .unattached => a
  | .type fullName parent => a.fillFromType fullName parent
  | .method name => a.fillFromMethod name resourcePath
  | .property name => a.fillFromProperty name comment

end Marginalia
