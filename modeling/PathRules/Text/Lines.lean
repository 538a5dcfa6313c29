/-!
# Lines and substitution

`pieces` splits at a separator and `lines` at line feeds, `joined` puts texts together with a
separator, `indented` puts a tab before every line, and `replaceAll` replaces every occurrence
of a text from left to right, never looking into what it has put in.

`indented` is `_indented`, and `replaceAll` is what `Constraint.render` replaces with.
-/

namespace PathRules.Text

/-- Always at least one piece. -/
def splitChars (separator : Char) : List Char → List (List Char)
  | [] => [[]]
  | c :: cs =>
      if c == separator then [] :: splitChars separator cs
      else
        match splitChars separator cs with
        | [] => [[c]]
        | piece :: rest => (c :: piece) :: rest

def pieces (separator : Char) (s : String) : List String :=
  (splitChars separator s.toList).map String.ofList

def lines (s : String) : List String := pieces '\n' s

def joined (separator : String) (texts : List String) : String :=
  String.intercalate separator texts

def indented (s : String) : String :=
  joined "\n" ((lines s).map ("\t" ++ ·))

/-- Replaces `target`, which is not empty, reading `skip` characters without copying. -/
def replaceChars (target replacement : List Char) : (skip : Nat) → List Char → List Char
  | _, [] => []
  | skip + 1, _ :: cs => replaceChars target replacement skip cs
  | 0, c :: cs =>
      if target.isPrefixOf (c :: cs) then
        replacement ++ replaceChars target replacement (target.length - 1) cs
      else c :: replaceChars target replacement 0 cs

def replaceAll (target replacement s : String) : String :=
  String.ofList (replaceChars target.toList replacement.toList 0 s.toList)

/-- Digits in groups of three, separated by commas. -/
def grouped (n : Nat) : String :=
  let rec groups : List Char → List Char
    | a :: b :: c :: d :: rest => a :: b :: c :: ',' :: groups (d :: rest)
    | rest => rest
  String.ofList (groups (Nat.toDigits 10 n).reverse).reverse

end PathRules.Text
