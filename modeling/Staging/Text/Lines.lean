/-!
Lines end at a line feed, and a carriage return right before it belongs to the ending. Text after
the last line feed is a line too, unless it is empty.
-/
namespace Staging.Text

/-- The line without the carriage return that was part of its ending. -/
def dropReturn : List Char → List Char
  | [] => []
  | ['\r'] => []
  | c :: cs => c :: dropReturn cs

/-- The lines of a text whose current line has already read `seen`, newest character first. -/
def linesFrom (seen : List Char) : List Char → List (List Char)
  | [] => if seen.isEmpty then [] else [seen.reverse]
  | '\n' :: cs => dropReturn seen.reverse :: linesFrom [] cs
  | c :: cs => linesFrom (c :: seen) cs

def lines (cs : List Char) : List (List Char) := linesFrom [] cs

end Staging.Text
