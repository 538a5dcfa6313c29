import PathRules.Outcome.Outline
import PathRules.Run.Basic

/-!
# Tallies

A tally observes runs: it counts runs and failed runs, counts errors by place and message,
and shows each rejected value as a panel.  Its summary lists the most frequent errors.

This is `RichReportObserver`: `observe` is `on_event`, `Panel.ofOutcome` is what `_print_result`
shows and `summary` is `summary_table`.
-/

namespace PathRules

structure Tally where
  /-- Whether accepted values are shown too. -/
  showsAccepted : Bool := false
  /-- How many errors the summary lists; a negative number leaves out that many. -/
  limit : Int := 10
  runs : Nat := 0
  failed : Nat := 0
  /-- Places with messages, in order of first occurrence. -/
  counts : List (Value × Nat) := []

/-- An outline in a titled frame. -/
structure Panel where
  title : String
  border : String
  outline : Outline

structure Summary where
  title : String
  headers : List String
  rows : List (List String)
deriving DecidableEq, Repr

namespace Panel

def ofOutcome [Display] (outcome : Outcome) : Panel :=
  let outline := outcome.outline "this"
  if outcome.isAccepted then ⟨"[bold green]Valid[/]", "green", outline⟩
  else ⟨"[bold red]Invalid[/]", "red", outline⟩

end Panel

namespace Tally

def countIn (g : ObjectGraph) (key : Value) : List (Value × Nat) → List (Value × Nat)
  | [] => [(key, 1)]
  | (k, n) :: rest =>
      if Value.same g k key then (k, n + 1) :: rest else (k, n) :: countIn g key rest

def count (g : ObjectGraph) (tally : Tally) (data : List (String × Value)) :
    Except Fault Unit × Tally :=
  let key := Value.tuple
    [(data.lookup "data_path").getD (.str ""), (data.lookup "message").getD (.str "")]
  if key.isHashable g then (.ok (), { tally with counts := countIn g key tally.counts })
  else (.error .wrongType, tally)

def shows (tally : Tally) (outcome : Outcome) : Bool :=
  !outcome.isAccepted || tally.showsAccepted

/-- Takes note of an event and shows the outcome of a run, if it has one. -/
def observe [Display] (g : ObjectGraph) (tally : Tally) (event : Event) :
    Except Fault (List Panel) × Tally :=
  match event.type with
  | .errorAdded =>
      let (counted, tally) := count g tally event.data
      (counted.map fun _ => [], tally)
  | .completed =>
      let tally := { tally with runs := tally.runs + 1 }
      match event.outcome, event.data.lookup "result" with
      | some outcome, _ =>
          (.ok (if tally.shows outcome then [.ofOutcome outcome] else []),
            if outcome.isAccepted then tally else { tally with failed := tally.failed + 1 })
      | none, none | none, some .null => (.ok [], tally)
      | none, some _ => (.error .missingAttribute, tally)
  | _ => (.ok [], tally)

/-- Observes events one after the other, up to the first fault. -/
def observeAll [Display] (g : ObjectGraph) : List Event → Tally → Except Fault (List Panel) × Tally
  | [], tally => (.ok [], tally)
  | event :: events, tally =>
      match tally.observe g event with
      | (.error fault, tally) => (.error fault, tally)
      | (.ok panels, tally) =>
          let (rest, tally) := observeAll g events tally
          (rest.map (panels ++ ·), tally)

/-- The most frequent errors, those of one frequency in order of first occurrence. -/
def frequent (tally : Tally) : List (Value × Nat) :=
  let sorted := tally.counts.mergeSort fun a b => decide (b.2 ≤ a.2)
  if tally.limit < 0 then sorted.take (sorted.length - tally.limit.natAbs)
  else sorted.take tally.limit.toNat

def cell [Display] : Value → Except Fault String
  | .str s => .ok (Display.clean s)
  | _ => .error .missingAttribute

def row [Display] : Value × Nat → Except Fault (List String)
  | (.tuple [place, message], n) => do pure [← cell place, ← cell message, Text.grouped n]
  | _ => .error .missingAttribute

def summary [Display] (tally : Tally) : Except Fault Summary := do
  let rows ← tally.frequent.mapM row
  pure {
    title := "Top Errors (" ++ Text.grouped tally.failed ++ " of " ++ Text.grouped tally.runs
      ++ " runs failed)"
    headers := ["Path", "Error", "Count"]
    rows := if rows.isEmpty then [["-", "No errors yet", "-"]] else rows }

end Tally

end PathRules
