/-!
# Kinds of annotations and their fields

The vocabulary of API descriptions in doc-comments, as tables:

* `Kind`: the twelve annotations. Three of them are groups, which only wrap members for the
  annotation around them, and one is a reference to a partial definition;
* `Field`: what an annotation can say, with the name it has inside the program, the spelling under
  which it is written and printed, and the shape of its values;
* `Kind.fields`, `Kind.mandatory`, `Kind.nestField?`: which kind has which fields, which of them a
  valid annotation must have, and where an annotation nested in another one goes.
-/

namespace Marginalia

/-! ## 1. Kinds -/

/-- The kinds of annotations. -/
inductive Kind where
  | resource
  | api
  | operations
  | operation
  | parameters
  | parameter
  | responseMessages
  | responseMessage
  | model
  | property
  | items
  | reference
deriving DecidableEq, Repr

namespace Kind

/-- All kinds. -/
def all : List Kind :=
  [.resource, .api, .operations, .operation, .parameters, .parameter, .responseMessages,
    .responseMessage, .model, .property, .items, .reference]

/-- The name a kind is written with. -/
def name : Kind → String
  | .resource => "Resource"
  | .api => "Api"
  | .operations => "Operations"
  | .operation => "Operation"
  | .parameters => "Parameters"
  | .parameter => "Parameter"
  | .responseMessages => "ResponseMessages"
  | .responseMessage => "ResponseMessage"
  | .model => "Model"
  | .property => "Property"
  | .items => "Items"
  | .reference => "Partial"

/-- The name a kind is looked up by: its name in lower case. -/
def key : Kind → String
  | .resource => "resource"
  | .api => "api"
  | .operations => "operations"
  | .operation => "operation"
  | .parameters => "parameters"
  | .parameter => "parameter"
  | .responseMessages => "responsemessages"
  | .responseMessage => "responsemessage"
  | .model => "model"
  | .property => "property"
  | .items => "items"
  | .reference => "partial"

/-- The kind that is looked up by `key`. -/
def ofKey? (key : String) : Option Kind := all.find? (·.key == key)

/-- How messages name an annotation of the kind. -/
def tag (k : Kind) : String := "@SWG\\" ++ k.name ++ "()"

/-- The groups: their members belong to the annotation around them. -/
def isGroup : Kind → Bool
  | .operations | .parameters | .responseMessages => true
  | _ => false

theorem mem_all (k : Kind) : k ∈ all := by cases k <;> decide

theorem ofKey?_key (k : Kind) : ofKey? k.key = some k := by cases k <;> decide

end Kind

/-! ## 2. Fields -/

/-- What an annotation can say. -/
inductive Field where
  | swaggerVersion
  | apiVersion
  | basePath
  | resourcePath
  | description
  | produces
  | consumes
  | apis
  | path
  | operations
  | method
  | summary
  | notes
  | nickname
  | type
  | items
  | deprecated
  | parameters
  | responseMessages
  | name
  | paramType
  | format
  | required
  | allowMultiple
  | defaultValue
  | enum
  | minimum
  | maximum
  | code
  | message
  | responseModel
  | id
  | subTypes
  | discriminator
  | properties
  | declaringClass
  | parentClass
  | ref
  | value
  | members
deriving DecidableEq, Repr

/-- The shape of a field's values. -/
inductive Shape where
  /-- Text. -/
  | text
  /-- A truth value. -/
  | flag
  /-- A whole number. -/
  | whole
  /-- Any value at all. -/
  | anything
  /-- A list of values of one shape. -/
  | list (item : Shape)
  /-- An annotation of one kind. -/
  | child (kind : Kind)
deriving DecidableEq, Repr

namespace Field

/-- The name of a field inside the program. -/
def key : Field → String
  | .swaggerVersion => "swagger_version"
  | .apiVersion => "api_version"
  | .basePath => "base_path"
  | .resourcePath => "resource_path"
  | .description => "description"
  | .produces => "produces"
  | .consumes => "consumes"
  | .apis => "apis"
  | .path => "path"
  | .operations => "operations"
  | .method => "method"
  | .summary => "summary"
  | .notes => "notes"
  | .nickname => "nickname"
  | .type => "type"
  | .items => "items"
  | .deprecated => "deprecated"
  | .parameters => "parameters"
  | .responseMessages => "response_messages"
  | .name => "name"
  | .paramType => "param_type"
  | .format => "format"
  | .required => "is_required"
  | .allowMultiple => "allow_multiple"
  | .defaultValue => "default_value"
  | .enum => "enum"
  | .minimum => "minimum"
  | .maximum => "maximum"
  | .code => "code"
  | .message => "message"
  | .responseModel => "response_model"
  | .id => "id"
  | .subTypes => "sub_types"
  | .discriminator => "discriminator"
  | .properties => "properties"
  | .declaringClass => "php_class"
  | .parentClass => "php_extends"
  | .ref => "ref"
  | .value => "value"
  | .members => "members"

/-- The name a field is written and printed with. -/
def spelling : Field → String
  | .swaggerVersion => "swaggerVersion"
  | .apiVersion => "apiVersion"
  | .basePath => "basePath"
  | .resourcePath => "resourcePath"
  | .responseMessages => "responseMessages"
  | .paramType => "paramType"
  | .required => "required"
  | .allowMultiple => "allowMultiple"
  | .defaultValue => "defaultValue"
  | .responseModel => "responseModel"
  | .subTypes => "subTypes"
  | .declaringClass => "phpClass"
  | .parentClass => "phpExtends"
  | .ref => "$ref"
  | f => f.key

/-- The shape of a field's values. -/
def shape : Field → Shape
  | .produces | .consumes | .subTypes => .list .text
  | .enum | .members => .list .anything
  | .defaultValue | .minimum | .maximum => .anything
  | .required | .allowMultiple | .deprecated => .flag
  | .code => .whole
  | .items => .child .items
  | .apis => .list (.child .api)
  | .operations => .list (.child .operation)
  | .parameters => .list (.child .parameter)
  | .responseMessages => .list (.child .responseMessage)
  | .properties => .list (.child .property)
  | _ => .text

/-- The fields that always hold a list: they start empty and refuse null. -/
def alwaysList : Field → Bool
  | .apis | .operations | .parameters | .responseMessages | .properties | .members => true
  | _ => false

/-- The fields that are never printed: where a model was declared. -/
def isInternal : Field → Bool
  | .declaringClass | .parentClass => true
  | _ => false

end Field

/-! ## 3. Which kind has which fields -/

namespace Kind

/-- The fields of a kind, in the order in which they are checked and printed. -/
def fields : Kind → List Field
  | .resource =>
    [.swaggerVersion, .apiVersion, .basePath, .resourcePath, .description, .produces, .consumes,
      .apis]
  | .api => [.path, .description, .operations]
  | .operation =>
    [.method, .summary, .notes, .nickname, .type, .items, .produces, .consumes, .deprecated,
      .parameters, .responseMessages]
  | .parameter =>
    [.name, .description, .paramType, .type, .format, .items, .required, .allowMultiple,
      .defaultValue, .enum, .minimum, .maximum]
  | .responseMessage => [.code, .message, .responseModel]
  | .model =>
    [.id, .description, .subTypes, .discriminator, .properties, .declaringClass, .parentClass]
  | .property =>
    [.name, .type, .format, .description, .items, .required, .enum, .minimum, .maximum]
  | .items => [.type, .ref]
  | .reference => [.value]
  | .operations | .parameters | .responseMessages => [.members]

/-- The fields without which an annotation is invalid. -/
def mandatory : Kind → List Field
  | .resource => [.resourcePath]
  | .api => [.path]
  | .operation => [.method, .nickname]
  | .parameter => [.name]
  | .responseMessage => [.code, .message]
  | .model => [.id]
  | .property => [.name, .type]
  | _ => []

/-- The field that a value without a name goes to. -/
def defaultField? : Kind → Option Field
  | .items => some .type
  | .reference => some .value
  | _ => none

/-- The field of the outer kind that receives a nested annotation of the inner kind. -/
def nestField? : (outer inner : Kind) → Option Field
  | .resource, .api => some .apis
  | .api, .operation => some .operations
  | .api, .operations => some .operations
  | .operation, .parameter => some .parameters
  | .operation, .parameters => some .parameters
  | .operation, .responseMessage => some .responseMessages
  | .operation, .responseMessages => some .responseMessages
  | .operation, .items => some .items
  | .operations, .operation => some .members
  | .parameters, .parameter => some .members
  | .responseMessages, .responseMessage => some .members
  | .parameter, .items => some .items
  | .property, .items => some .items
  | .model, .property => some .properties
  | _, _ => none

/-- The fields that nested annotations go to. -/
def nestFields : Kind → List Field
  | .resource => [.apis]
  | .api => [.operations]
  | .operation => [.items, .parameters, .responseMessages]
  | .operations | .parameters | .responseMessages => [.members]
  | .parameter | .property => [.items]
  | .model => [.properties]
  | _ => []

/-- The fields whose members are validated one by one. -/
def checkedLists : Kind → List Field
  | .resource => [.apis]
  | .api => [.operations]
  | .operation => [.parameters, .responseMessages]
  | .model => [.properties]
  | _ => []

/-- The field that receives a nested annotation is one of the kind's fields. -/
theorem nestField?_mem {outer inner : Kind} {f : Field} (h : outer.nestField? inner = some f) :
    f ∈ outer.nestFields ∧ f ∈ outer.fields := by
  cases outer <;> cases inner <;> simp_all [nestField?, nestFields, fields]

end Kind

end Marginalia
