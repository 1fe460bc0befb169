/-!
# Lines of a text

A line ends at a line feed, a carriage return (which takes a line feed after it along), a vertical
tab, a form feed, one of the three larger information separators, the next-line control, or the
Unicode line and paragraph separators. A final line end opens no further line.
-/
namespace SshKeys.Text

def isLineEnd (c : Char) : Bool :=
  let n := c.val
  (0x0A ≤ n && n ≤ 0x0D) || (0x1C ≤ n && n ≤ 0x1E) || n == 0x85 || n == 0x2028 || n == 0x2029

/-- The finished lines, then the lines of what follows; `line` holds the current line so far. Both
`line` and `finished` are last first. -/
def linesFrom (line : List Char) (finished : List (List Char)) : List Char → List (List Char)
  | [] => (if line.isEmpty then finished else line.reverse :: finished).reverse
  | '\r' :: '\n' :: rest => linesFrom [] (line.reverse :: finished) rest
  | c :: rest =>
    if isLineEnd c then linesFrom [] (line.reverse :: finished) rest
    else linesFrom (c :: line) finished rest

def lines (cs : List Char) : List (List Char) := linesFrom [] [] cs

def splitFrom (separator : Char) (piece : List Char) (finished : List (List Char)) :
    List Char → List (List Char)
  | [] => (piece.reverse :: finished).reverse
  | c :: rest =>
    if c = separator then splitFrom separator [] (piece.reverse :: finished) rest
    else splitFrom separator (c :: piece) finished rest

def splitOn (separator : Char) (cs : List Char) : List (List Char) := splitFrom separator [] [] cs

end SshKeys.Text
