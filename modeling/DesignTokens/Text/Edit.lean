/-!
# Small edits of strings

Replacing one character by another, and taking a known beginning off a string.
-/

namespace DesignTokens.Text

/-- Every `a` of the string becomes `b`. -/
def replaceChar (a b : Char) (s : String) : String :=
  String.ofList (s.toList.map fun c => if c = a then b else c)

/-- The rest of `cs` after `start`, if `cs` starts with it. -/
def dropStart? : (start cs : List Char) → Option (List Char)
  | [], cs => some cs
  | _ :: _, [] => none
  | a :: start, c :: cs => if a = c then dropStart? start cs else none

/-- The rest of `s` after `start`, if `s` starts with it. -/
def afterStart? (start s : String) : Option String :=
  (dropStart? start.toList s.toList).map String.ofList

/-- Whether `s` starts with `start`. -/
def startsWith (start s : String) : Bool :=
  (dropStart? start.toList s.toList).isSome

/-- Whether `s` ends with `ending`. -/
def endsWith (ending s : String) : Bool :=
  (dropStart? ending.toList.reverse s.toList.reverse).isSome

/-- The pieces of `cs` between the occurrences of `sep`, empty pieces included. -/
def splitChars (sep : Char) : List Char → List (List Char)
  | [] => [[]]
  | c :: cs =>
    if c = sep then [] :: splitChars sep cs
    else
      match splitChars sep cs with
      | [] => [[c]]
      | piece :: pieces => (c :: piece) :: pieces

/-- The pieces of `s` between the occurrences of `sep`, empty pieces included. -/
def split (sep : Char) (s : String) : List String :=
  (splitChars sep s.toList).map String.ofList

/-- The strings with `sep` between each two neighbours. -/
def join (sep : String) : List String → String
  | [] => ""
  | [s] => s
  | s :: t :: rest => s ++ sep ++ join sep (t :: rest)

end DesignTokens.Text
