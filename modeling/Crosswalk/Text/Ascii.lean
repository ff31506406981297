/-!
# Comparison up to ASCII case

Two texts are alike when they agree character by character once the letters
`A` to `Z` are read as `a` to `z`. Letters outside ASCII keep their case.
-/

namespace Crosswalk.Text

def foldCase (cs : List Char) : List Char := cs.map Char.toLower

def alike (a b : List Char) : Bool := foldCase a == foldCase b

/-- What follows `start` in the text, `start` being met up to ASCII case. -/
def afterAlike? (start cs : List Char) : Option (List Char) :=
  if alike start (cs.take start.length) then some (cs.drop start.length) else none

end Crosswalk.Text
