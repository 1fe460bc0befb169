/-!
# Blanks

White space as Unicode has it, together with the four information separators. Zero width characters
are not blank. On top of it: trimming, and cutting the first fields off a line.
-/
namespace SshKeys.Text

def isBlank (c : Char) : Bool :=
  let n := c.val
  (0x09 ≤ n && n ≤ 0x0D) || (0x1C ≤ n && n ≤ 0x20) || n == 0x85 || n == 0xA0 || n == 0x1680 ||
  (0x2000 ≤ n && n ≤ 0x200A) || n == 0x2028 || n == 0x2029 || n == 0x202F || n == 0x205F ||
  n == 0x3000

def trimStart (cs : List Char) : List Char := cs.dropWhile isBlank

def trimEnd (cs : List Char) : List Char := (cs.reverse.dropWhile isBlank).reverse

def trim (cs : List Char) : List Char := trimEnd (trimStart cs)

/-- Up to `count` blank-separated fields, then whatever follows them with its leading blanks
removed, if anything does. -/
def fields : Nat → List Char → List (List Char)
  | count, cs =>
    let rest := trimStart cs
    if rest.isEmpty then []
    else match count with
      | 0 => [rest]
      | count + 1 =>
        rest.takeWhile (fun c => !isBlank c) ::
          fields count (rest.dropWhile (fun c => !isBlank c))

end SshKeys.Text
