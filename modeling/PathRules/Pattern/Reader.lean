import PathRules.Pattern.Basic

/-!
# Reading patterns

`Pattern.ofText?` reads the usual notation: literals, the dot, anchors, sets, escapes,
groups, alternatives and repetitions.  It answers none for a malformed pattern, such as
one with nothing to repeat or an open set.
-/

namespace PathRules.Pattern

private def hexValue? (cs : List Char) : Option Nat :=
  cs.foldlM (fun n c =>
    if '0' ≤ c && c ≤ '9' then some (16 * n + (c.toNat - 48))
    else if 'a' ≤ c && c ≤ 'f' then some (16 * n + (c.toNat - 87))
    else if 'A' ≤ c && c ≤ 'F' then some (16 * n + (c.toNat - 55))
    else none) 0

private def hexEscape? (width : Nat) (cs : List Char) : Option (Char × List Char) :=
  if (cs.take width).length == width then
    (hexValue? (cs.take width)).map fun code => (Char.ofNat code, cs.drop width)
  else none

private def categoryOf? : Char → Option Item
  | 'd' => some (.category false .digit)
  | 'D' => some (.category true .digit)
  | 'w' => some (.category false .word)
  | 'W' => some (.category true .word)
  | 's' => some (.category false .blank)
  | 'S' => some (.category true .blank)
  | _ => none

private def isAsciiLetter (c : Char) : Bool :=
  ('a' ≤ c && c ≤ 'z') || ('A' ≤ c && c ≤ 'Z')

/-- The character written by an escape; letters and digits without a meaning are refused. -/
private def escapedChar? : List Char → Option (Char × List Char)
  | 'n' :: rest => some ('\n', rest)
  | 't' :: rest => some ('\t', rest)
  | 'r' :: rest => some ('\r', rest)
  | 'f' :: rest => some (Char.ofNat 12, rest)
  | 'v' :: rest => some (Char.ofNat 11, rest)
  | 'a' :: rest => some (Char.ofNat 7, rest)
  | '0' :: rest => some (Char.ofNat 0, rest)
  | 'x' :: rest => hexEscape? 2 rest
  | 'u' :: rest => hexEscape? 4 rest
  | 'U' :: rest => hexEscape? 8 rest
  | c :: rest => if isAsciiLetter c || c.isDigit then none else some (c, rest)
  | [] => none

private def setItem? : List Char → Option (Item × List Char)
  | [] => none
  | '\\' :: 'b' :: rest => some (.between (Char.ofNat 8) (Char.ofNat 8), rest)
  | '\\' :: rest =>
      match rest.head?.bind categoryOf? with
      | some item => some (item, rest.drop 1)
      | none => (escapedChar? rest).map fun (c, rest) => (.between c c, rest)
  | c :: rest => some (.between c c, rest)

/-- The items up to the bracket that closes the set; one that stands first is an item. -/
private def setItems? : (fuel : Nat) → (first : Bool) → List Char → Option (List Item × List Char)
  | 0, _, _ => none
  | fuel + 1, first, cs =>
      match first, cs with
      | false, ']' :: rest => some ([], rest)
      | _, _ => do
          let (item, rest) ← setItem? cs
          match rest with
          | '-' :: ']' :: rest => some ([item, .between '-' '-'], rest)
          | '-' :: rest =>
              let (other, rest) ← setItem? rest
              match item, other with
              | .between low _, .between high _ =>
                  if low ≤ high then
                    (setItems? fuel false rest).map fun (items, rest) =>
                      (.between low high :: items, rest)
                  else none
              | _, _ => none
          | _ =>
              (setItems? fuel false rest).map fun (items, rest) => (item :: items, rest)

private def set? (fuel : Nat) : List Char → Option (Pattern × List Char)
  | '^' :: rest => (setItems? fuel true rest).map fun (items, rest) => (.one true items, rest)
  | rest => (setItems? fuel true rest).map fun (items, rest) => (.one false items, rest)

private def escape? (cs : List Char) : Option (Pattern × List Char) :=
  match cs with
  | 'b' :: rest => some (.boundary false, rest)
  | 'B' :: rest => some (.boundary true, rest)
  | 'A' :: rest => some (.start, rest)
  | 'Z' :: rest => some (.finish, rest)
  | _ =>
      match cs.head?.bind categoryOf? with
      | some item => some (.one false [item], cs.drop 1)
      | none => (escapedChar? cs).map fun (c, rest) => (.one false [.between c c], rest)

/-- Whether a repetition may follow. -/
private def repeatable : Pattern → Bool
  | .start | .stop | .finish | .boundary _ | .repeated .. => false
  | _ => true

private def digits (cs : List Char) : List Char × List Char :=
  (cs.takeWhile Char.isDigit, cs.dropWhile Char.isDigit)

private def number? (ds : List Char) : Option Nat :=
  (String.ofList ds).toNat?

/-- The bounds written after an opening brace; none if the brace is a literal. -/
private def bounds? (cs : List Char) : Option ((Nat × Option Nat) × List Char) :=
  let (low, rest) := digits cs
  match rest with
  | '}' :: rest => if low.isEmpty then none else (number? low).map fun n => ((n, some n), rest)
  | ',' :: rest =>
      let (high, rest) := digits rest
      match rest with
      | '}' :: rest => some (((number? low).getD 0, number? high), rest)
      | _ => none
  | _ => none

/-- The repetition that begins here, if one does. -/
private def repetition? : List Char → Option ((Nat × Option Nat) × List Char)
  | '*' :: rest => some ((0, none), rest)
  | '+' :: rest => some ((1, none), rest)
  | '?' :: rest => some ((0, some 1), rest)
  | '{' :: rest => bounds? rest
  | _ => none

private def isNameStart (c : Char) : Bool := (Text.isWord c && !Text.isDigit c)

/-- What follows the name of a group, which is a word that begins with no digit. -/
private def afterGroupName? (cs : List Char) : Option (List Char) :=
  let name := cs.takeWhile Text.isWord
  match name, cs.dropWhile Text.isWord with
  | c :: _, '>' :: rest => if isNameStart c then some rest else none
  | _, _ => none

private def groupBody? : List Char → Option (List Char)
  | '?' :: ':' :: rest => some rest
  | '?' :: 'P' :: '<' :: rest => afterGroupName? rest
  | '?' :: _ => none
  | rest => some rest

private def before (done : Pattern) : Option Pattern → Pattern
  | none => done
  | some last => .seq done last

mutual

/-- Alternatives, up to the end or a closing parenthesis. -/
private def alternatives? : (fuel : Nat) → List Char → Option (Pattern × List Char)
  | 0, _ => none
  | fuel + 1, cs => do
      let (left, rest) ← sequence? fuel .empty none cs
      match rest with
      | '|' :: rest =>
          let (right, rest) ← alternatives? fuel rest
          some (.alt left right, rest)
      | _ => some (left, rest)

/-- Items in sequence; `last` is the item read most recently, which a repetition
would apply to. -/
private def sequence? : (fuel : Nat) → Pattern → Option Pattern → List Char →
    Option (Pattern × List Char)
  | 0, _, _, _ => none
  | fuel + 1, done, last, cs =>
      match repetition? cs with
      | some ((least, most), rest) =>
          match last with
          | some body =>
              if repeatable body && most.all (least ≤ ·) then
                let rest := match rest with
                  | '?' :: rest => rest
                  | _ => rest
                sequence? fuel done (some (.repeated body least most)) rest
              else none
          | none => none
      | none =>
          match cs with
          | [] => some (before done last, [])
          | '|' :: _ => some (before done last, cs)
          | ')' :: _ => some (before done last, cs)
          | _ => do
              let (item, rest) ← item? fuel cs
              sequence? fuel (before done last) (some item) rest

private def item? : (fuel : Nat) → List Char → Option (Pattern × List Char)
  | 0, _ => none
  | fuel + 1, cs =>
      match cs with
      | [] => none
      | '.' :: rest => some (.dot, rest)
      | '^' :: rest => some (.start, rest)
      | '$' :: rest => some (.stop, rest)
      | '[' :: rest => set? fuel rest
      | '\\' :: rest => escape? rest
      | '(' :: rest => do
          let body ← groupBody? rest
          let (inner, rest) ← alternatives? fuel body
          match rest with
          | ')' :: rest => some (.seq .empty inner, rest)
          | _ => none
      | c :: rest => some (.one false [.between c c], rest)

end

def ofText? (s : String) : Option Pattern :=
  let cs := s.toList
  match alternatives? (4 * cs.length + 4) cs with
  | some (pattern, []) => some pattern
  | _ => none

end PathRules.Pattern
