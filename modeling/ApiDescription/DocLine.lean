import ApiDescription.DocTags
import ApiDescription.Text.Blank

/-!
# Documentation lines

Every documentation tag that names something has lines of one shape: a key, a run of blanks, and a
description (`404 not found`, `X-Id the id`). Blanks around the line are ignored.

* `DocLine.split` cuts a line into key and description.
* `DocLine.named` reads the lines of a tag whose keys are names; only blank lines are skipped.
* `DocLine.coded` reads the lines of a tag whose keys are status codes; a line with another key is
  skipped alone.
-/

namespace ApiDescription.DocLine

open Text

/-- The key and the description of a line; either may be empty. -/
def split (line : String) : String × String :=
  let chars := trimChars line.toList
  (String.ofList (chars.takeWhile (!isBlank ·)),
    String.ofList (trimStart (chars.dropWhile (!isBlank ·))))

/-- The status code a key denotes: an optional `+`, then one or more ASCII digits, at most 65535. -/
def code? (key : String) : Option UInt16 :=
  let digits := match key.toList with
    | '+' :: rest => rest
    | chars => chars
  if digits = [] ∨ digits.all isDigit = false then none
  else if h : digitsValue digits < UInt16.size then some (UInt16.ofNatLT _ h)
  else none

/-- The name and description of every line of a tag that is not blank. -/
def named (docs : DocTags) (tag : String) : List (String × String) :=
  ((docs.get? tag).getD []).map split |>.filter (·.1 ≠ "")

/-- The code and description of every line of a tag whose key is a status code. -/
def coded (docs : DocTags) (tag : String) : List (UInt16 × String) :=
  ((docs.get? tag).getD []).filterMap fun line =>
    let (key, description) := split line
    (code? key).map (·, description)

end ApiDescription.DocLine
