import ReviewRota.Json.Basic

/-!
# Issues

What is wrong with a document that was to be read as something: the kind of the issue, the place in
the document, and the part of the document that the issue is about.
-/

namespace ReviewRota

inductive Place where
  | key (name : String)
  | index (n : Nat)
deriving DecidableEq

inductive IssueKind where
  /-- A member that has to be there is not. -/
  | missing
  /-- A stored or given entity is no object. -/
  | notObject
  /-- The body of a request, or a part of it, is no object. -/
  | notRequestObject
  | notList
  | identifierSpelling
  | identifierType
  | truthSpelling
  | truthType
  | textType
  /-- A text that is no sequence of characters. -/
  | textBroken
  | textTooShort
  | textTooLong
  | integerSpelling
  | integerType
  | integerFraction
  | integerTooLarge
  | integerInfinite
  | status
  | instantType
  | instantNumber
  | instantSpelling
  /-- An entity never changes once it is made. -/
  | frozen
  /-- The body of a request is no document. -/
  | notDocument
  /-- A rule about several fields, or about the meaning of one, is broken. -/
  | rule (message : String)
deriving DecidableEq

/-- The word for a kind of issue in answers. -/
def IssueKind.name : IssueKind → String
  | missing => "missing"
  | notObject => "model_type"
  | notRequestObject => "model_attributes_type"
  | notList => "list_type"
  | identifierSpelling => "uuid_parsing"
  | identifierType => "uuid_type"
  | truthSpelling => "bool_parsing"
  | truthType => "bool_type"
  | textType => "string_type"
  | textBroken => "string_unicode"
  | textTooShort => "string_too_short"
  | textTooLong => "string_too_long"
  | integerSpelling => "int_parsing"
  | integerType => "int_type"
  | integerFraction => "int_from_float"
  | integerTooLarge => "int_parsing_size"
  | integerInfinite => "finite_number"
  | status => "enum"
  | instantType => "datetime_type"
  | instantNumber => "datetime_parsing"
  | instantSpelling => "datetime_from_date_parsing"
  | frozen => "frozen_instance"
  | notDocument => "json_invalid"
  | rule _ => "value_error"

structure Issue where
  kind : IssueKind
  /-- The way from the top of the document to the place of the issue. -/
  place : List Place
  /-- The part of the document that the issue is about. -/
  subject : Json

namespace Issue

/-- The same issue in a document that holds the first one at a place. -/
def under (p : Place) (i : Issue) : Issue := { i with place := p :: i.place }

/-- An attempt to change a field of an entity. -/
def frozenField (name : String) (value : Json) : Issue := ⟨.frozen, [.key name], value⟩

def placeJson : Place → Json
  | .key name => .text name
  | .index n => .int n

/-- An issue in an answer: its kind and place, and for a broken rule the rule. -/
def toJson (i : Issue) : Json :=
  let common : List (Json.Name × Json) :=
    [("type", .text i.kind.name), ("loc", .list (i.place.map placeJson))]
  match i.kind with
  | .rule message => .object (common.concat ("msg", .text ("Value error, " ++ message)))
  | _ => .object common

end Issue

end ReviewRota
