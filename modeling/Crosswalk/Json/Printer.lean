import Crosswalk.Json.Token

/-!
# Writing JSON text

Values are written without any space: the tokens of the value one after the
other, members in their order.
-/

namespace Crosswalk.Json

mutual

def tokens : Json → List Token
  | .null => [.null]
  | .bool b => [.bool b]
  | .num n => [.num n]
  | .str s => [.str s]
  | .arr items => .beginArray :: (tokensOfItems items ++ [.endArray])
  | .obj members => .beginObject :: (tokensOfMembers members ++ [.endObject])

def tokensOfItems : List Json → List Token
  | [] => []
  | [item] => tokens item
  | item :: rest => tokens item ++ .comma :: tokensOfItems rest

def tokensOfMembers : List (String × Json) → List Token
  | [] => []
  | [(key, value)] => .str key :: .colon :: tokens value
  | (key, value) :: rest => .str key :: .colon :: (tokens value ++ .comma :: tokensOfMembers rest)

end

def text (value : Json) : String := String.ofList ((tokens value).flatMap Token.text)

end Crosswalk.Json
