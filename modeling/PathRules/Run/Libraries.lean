import PathRules.Model.Registry
import PathRules.Outcome.Outline
import PathRules.Report.Record

/-!
# What is left to libraries

The rules take as given how labels are displayed, how records and reports are read, and which
fields a model has.  Here is what the libraries at hand do: `stripping` displays labels, fields
are read leniently, and the fields of a model are collected from its bases.  The order of the
bases themselves is that of the language.
-/

namespace PathRules

/-! ## Labels -/

/-- Labels are displayed without control codes. -/
instance stripping : Display where
  clean label := String.ofList (label.toList.filter fun c => !Outline.cursorCodes.contains c.toNat)
  toList_clean _ := String.toList_ofList

/-! ## Records and reports -/

/-- Named fields that a record or a report is read from. -/
abbrev Fields := List (String × Value)

namespace Fields

/-- The fields of a map whose keys are names. -/
def ofValue? : Value → Option Fields
  | .map pairs =>
      pairs.mapM fun (key, value) =>
        match key with
        | .str name => some (name, value)
        | _ => none
  | _ => none

def text? (fields : Fields) (name : String) : Option String :=
  match fields.lookup name with
  | some (.str s) => some s
  | _ => none

/-- A field that may be missing or null; none for one that is neither that nor a text. -/
def optionalText? (fields : Fields) (name : String) : Option (Option String) :=
  match fields.lookup name with
  | none | some .null => some none
  | some (.str s) => some (some s)
  | some _ => none

/-- Words that stand for a truth value, in lower case. -/
def trueWords : List String := ["1", "on", "t", "true", "y", "yes"]

def falseWords : List String := ["0", "off", "f", "false", "n", "no"]

/-- The truth value that a value stands for: its own, 1 or 0, or a word in any case. -/
def truth? (v : Value) : Option Bool :=
  match v with
  | .str s =>
      let word := String.ofList (s.toList.map Char.toLower)
      if trueWords.contains word then some true
      else if falseWords.contains word then some false
      else none
  | v =>
      match v.number? with
      | some x =>
          if x.isZero then some false
          else if x.compare? (.ofInt 1) == some .eq then some true
          else none
      | none => none

end Fields

namespace Record

def severity? : String → Option Severity
  | "error" => some .error
  | "warning" => some .warning
  | _ => none

def ofFields? (fields : Fields) : Option Record := do
  pure {
    severity := ← (← fields.text? "severity") |> severity?
    place := ← fields.text? "data_path"
    message := ← fields.text? "message"
    value := ← fields.optionalText? "value" }

end Record

namespace Report

/-- The records of a list field, which may be missing. -/
def records? (fields : Fields) (name : String) : Option (List Record) :=
  match fields.lookup name with
  | none => some []
  | some (.list items) => items.mapM fun item => (Fields.ofValue? item).bind Record.ofFields?
  | some _ => none

/-- Reads a report; its time is given and can not be a field as well. -/
def ofFields (timestamp : String) (fields : Fields) : Except Fault Report :=
  if (fields.lookup "timestamp").isSome then .error .wrongType
  else
    let report? : Option Report := do
      pure {
        isValid := ← (← fields.lookup "is_valid") |> Fields.truth?
        errors := ← records? fields "errors"
        warnings := ← records? fields "warnings"
        timestamp }
    match report? with
    | some report => .ok report
    | none => .error .refusedRecord

end Report

/-! ## Model classes -/

/-- A model class as it is defined. -/
structure ModelClass where
  name : String
  /-- The class and its bases in the order in which they are looked at. -/
  ancestors : List String
  /-- The fields the class itself declares. -/
  own : List (String × FieldType)

/-- Fields no two of which share a name. -/
abbrev FieldList := { fields : List (String × FieldType) // (fields.map (·.1)).Nodup }

namespace FieldList

/-- Declares a field; one that is declared again keeps its place and takes the new type. -/
def declare (found : FieldList) (field : String × FieldType) : FieldList where
  val :=
    if found.val.any (·.1 == field.1) then
      found.val.map fun f => if f.1 == field.1 then field else f
    else found.val ++ [field]
  property := by
    split
    · have names : (found.val.map fun f => if f.1 == field.1 then field else f).map (·.1) =
          found.val.map (·.1) := by
        rw [List.map_map]
        refine List.map_congr_left fun f _ => ?_
        by_cases same : f.1 = field.1 <;> simp [same]
      rw [names]
      exact found.property
    · next new =>
      rw [List.map_append]
      refine List.nodup_append.mpr ⟨found.property, by simp, fun name present other last => ?_⟩
      obtain rfl := List.mem_singleton.mp last
      obtain ⟨f, member, rfl⟩ := List.mem_map.mp present
      rintro same
      exact new (List.any_eq_true.mpr ⟨f, member, by simpa using same⟩)

/-- The fields of a class: those of its bases, the most distant first, and then its own. -/
def ofClass (schema : Schema) (c : ModelClass) : FieldList :=
  c.own.foldl declare (c.ancestors.reverse.foldl (fun found a =>
    (schema.fields a).foldl declare found) ⟨[], List.nodup_nil⟩)

end FieldList

def Rulebook.addModel (book : Rulebook) (c : ModelClass) : Rulebook :=
  let listed := FieldList.ofClass book.schema c
  { book with schema := book.schema ++ [⟨c.name, c.ancestors, listed.val, listed.property⟩] }

namespace Schema

/-- The fields of an instance in order, given some of them; the others are null. -/
def instanceFields (schema : Schema) (name : String) (given : List (String × Value)) :
    List (String × Value) :=
  (schema.fields name).map fun (field, _) => (field, (given.reverse.lookup field).getD .null)

/-- The first head that stands in no tail. -/
private def nextHead (lines : List (List String)) : Option String :=
  (lines.filterMap List.head?).find? fun head => !lines.any fun line => line.tail.contains head

/-- Merges the lines of ancestors of several bases: each class stands before its own bases,
and bases keep their order.  None if that is impossible. -/
def merge : (fuel : Nat) → List (List String) → Option (List String)
  | 0, lines => if lines.all (·.isEmpty) then some [] else none
  | fuel + 1, lines =>
      if lines.all (·.isEmpty) then some []
      else
        match nextHead lines with
        | none => none
        | some head =>
            (merge fuel (lines.map fun line => if line.head? == some head then line.tail else line)).map
              (head :: ·)

/-- The ancestors of a class with the given bases. -/
def linearize (ancestorsOf : String → List String) (name : String) (bases : List String) :
    Option (List String) :=
  let lines := bases.map ancestorsOf ++ [bases]
  (merge lines.flatten.length lines).map (name :: ·)

/-- The entry of a class with the given bases, none if its ancestors have no order. -/
def classInfo? (g : ObjectGraph) (name : String) (bases : List String) : Option ClassInfo :=
  (linearize g.ancestorsOf name bases).map fun ancestors => { name, ancestors }

end Schema

end PathRules
