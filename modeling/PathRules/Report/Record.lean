import PathRules.Outcome.Basic

/-!
# Reports

A report lists the failures of an outcome as flat records, errors apart from warnings, with
the time at which it was made.  Records and reports can be written as documents.

These are `ErrorRecord` and `ErrorReport`: `ofOutcome` is `from_result` and `log` is `audit_log`.
-/

namespace PathRules

structure Record where
  severity : Severity
  place : String
  message : String
  /-- The checked value as text; none for null. -/
  value : Option String := none
deriving DecidableEq, Repr

structure Report where
  isValid : Bool
  errors : List Record := []
  warnings : List Record := []
  timestamp : String
deriving DecidableEq, Repr

/-- A record in a log, with the time of its report and perhaps a source. -/
structure LogEntry where
  record : Record
  timestamp : String
  source : Option String
deriving DecidableEq, Repr

def Record.ofPlaced (g : ObjectGraph) (p : Placed) : Except Fault Record :=
  let record : Record :=
    { severity := p.leaf.severity, place := p.place.text, message := p.leaf.message }
  match p.leaf.value with
  | .null => .ok record
  | v =>
      match v.shown? g with
      | some text => .ok { record with value := some text }
      | none => .error .endless

namespace Report

def ofOutcome (g : ObjectGraph) (timestamp : String) (outcome : Outcome) : Except Fault Report := do
  let records ← outcome.recorded.mapM (Record.ofPlaced g)
  pure {
    isValid := outcome.isAccepted
    errors := records.filter (·.severity == .error)
    warnings := records.filter (·.severity == .warning)
    timestamp }

/-- All records, errors first; an empty source counts as none. -/
def log (report : Report) (source : Option String) : List LogEntry :=
  (report.errors ++ report.warnings).map fun record =>
    { record, timestamp := report.timestamp, source := source.filter (!·.isEmpty) }

end Report

/-- A record as named fields. -/
def Record.fields (r : Record) : List (String × Value) :=
  [("severity", .str r.severity.text), ("data_path", .str r.place), ("message", .str r.message),
    ("value", (r.value.map Value.str).getD .null)]

/-- Named fields as one map. -/
def documentOf (fields : List (String × Value)) : Value :=
  .map (fields.map fun (name, v) => (.str name, v))

def Report.document (report : Report) : Value :=
  let records (rs : List Record) : Value := .list (rs.map fun r => documentOf r.fields)
  documentOf [("is_valid", .bool report.isValid), ("errors", records report.errors),
    ("warnings", records report.warnings), ("timestamp", .str report.timestamp)]

/-- An entry of a log; it has a source only if the log has one. -/
def LogEntry.document (entry : LogEntry) : Value :=
  documentOf (entry.record.fields ++ [("timestamp", .str entry.timestamp)]
    ++ entry.source.toList.map fun source => ("source", .str source))

end PathRules
