/-!
# Splitting text

`splitAt` cuts a text at every occurrence of a character.
-/

namespace Heredity.Text

/-- The pieces of a text between the occurrences of a character; there is always one more piece than
occurrences. -/
def splitAt (mark : Char) : List Char → List (List Char)
  | [] => [[]]
  | c :: cs =>
    if c = mark then [] :: splitAt mark cs
    else
      match splitAt mark cs with
      | [] => [[c]]
      | piece :: pieces => (c :: piece) :: pieces

end Heredity.Text
