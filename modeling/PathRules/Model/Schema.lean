import PathRules.Value.Basic

/-!
# Schemas of models

A schema lists model classes with their bases and typed fields, as the library for models tells
them.  A field whose type is a model, or a collection of one, is a relation to that model.

`FieldType.relation?` is `_relation_target`, `Schema.lineage` is `_bases` and `Schema.fields` is
`model_fields`.
-/

namespace PathRules

/-- Generic types; all but the mapping are collections of their items. -/
inductive Generic
  | list
  | set
  | tuple
  | frozenset
  | sequence
  | mapping
deriving DecidableEq, Repr

def Generic.isCollection : Generic → Bool
  | .mapping => false
  | _ => true

inductive FieldType
  | model (name : String)
  | null
  | plain (name : String)
  /-- Any number of further items, in a tuple. -/
  | ellipsis
  | union (members : List FieldType)
  | generic (origin : Generic) (arguments : List FieldType)
deriving Repr

/-- The model a field refers to, singly or as items of a collection. -/
structure Relation where
  target : String
  isCollection : Bool
deriving DecidableEq, Repr

namespace FieldType

mutual

/-- Unions are equal in any order of their members, which are pairwise different. -/
def beq : FieldType → FieldType → Bool
  | .model a, .model b => a == b
  | .null, .null => true
  | .plain a, .plain b => a == b
  | .ellipsis, .ellipsis => true
  | .union as, .union bs => as.length == bs.length && allAmong as bs
  | .generic o as, .generic p bs => o == p && beqAll as bs
  | _, _ => false
termination_by structural a => a

def beqAll : List FieldType → List FieldType → Bool
  | [], [] => true
  | a :: as, b :: bs => beq a b && beqAll as bs
  | _, _ => false
termination_by structural as => as

def allAmong : List FieldType → List FieldType → Bool
  | [], _ => true
  | a :: as, bs => bs.any (beq a ·) && allAmong as bs
termination_by structural as => as

end

instance : BEq FieldType := ⟨beq⟩

/-- The union of field types: unions among them are flattened, repeats dropped, and a
single type stands for itself. -/
def unionOf (members : List FieldType) : FieldType :=
  let flat := members.flatMap fun a =>
    match a with
    | .union inner => inner
    | a => [a]
  match flat.foldl (fun seen a => if seen.contains a then seen else seen ++ [a]) [] with
  | [a] => a
  | distinct => .union distinct

def optional (a : FieldType) : FieldType := unionOf [a, .null]

/-- Null in a union and the ellipsis in a tuple are not counted as members. -/
def isNull : FieldType → Bool
  | .null => true
  | _ => false

def isEllipsis : FieldType → Bool
  | .ellipsis => true
  | _ => false

mutual

/-- The relation a field type stands for: a model, a union whose only member besides null
stands for one, or a collection of one type that stands for a single one. -/
def relation? : FieldType → Option Relation
  | .model name => some ⟨name, false⟩
  | .union members =>
      match relationsBut isNull members with
      | [relation] => relation
      | _ => none
  | .generic origin arguments =>
      match origin.isCollection, relationsBut isEllipsis arguments with
      | true, [some ⟨target, false⟩] => some ⟨target, true⟩
      | _, _ => none
  | _ => none
termination_by structural a => a

/-- What the members stand for, without those that are passed over. -/
def relationsBut (passed : FieldType → Bool) : List FieldType → List (Option Relation)
  | [] => []
  | a :: as =>
      if passed a then relationsBut passed as else relation? a :: relationsBut passed as
termination_by structural as => as

end

end FieldType

/-- A model class as it is defined and as the library for models describes it. -/
structure ModelInfo where
  name : String
  /-- The class and its bases in the order in which they are looked at. -/
  ancestors : List String
  /-- All fields that the library lists, inherited ones among them, in its order. -/
  fields : List (String × FieldType)
  /-- The library lists no field twice. -/
  distinct : (fields.map (·.1)).Nodup

abbrev Schema := List ModelInfo

namespace Schema

def find? (schema : Schema) (name : String) : Option ModelInfo :=
  List.find? (fun c => c.name == name) schema

/-- The model classes among the ancestors of a class, itself first. -/
def lineage (schema : Schema) (name : String) : List String :=
  match schema.find? name with
  | some c => c.ancestors.filter fun a => (schema.find? a).isSome
  | none => []

/-- The fields of a class, none if it is not a model. -/
def fields (schema : Schema) (name : String) : List (String × FieldType) :=
  ((schema.find? name).map (·.fields)).getD []

end Schema

end PathRules
