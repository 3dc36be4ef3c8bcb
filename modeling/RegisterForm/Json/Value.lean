import RegisterForm.Json.Token
/-!
# JSON values

The value of a JSON text. The reader keeps the collections that are still open on a stack,
so that one pass over the tokens suffices, however deep the text nests.
-/
namespace RegisterForm

/-- A JSON value. A string has no content if some escape in it names half a character. -/
inductive Json where
  | null
  | boolean (value : Bool)
  | number
  | string (content : Option String)
  | array (items : List Json)
  | object (members : List (Option String × Json))

namespace Json

/-- A collection that is still open, its parts in reverse order. -/
inductive Opening where
  | array (items : List Json)
  | object (members : List (Option String × Json)) (key : Option String)

/-- What may come next in a text. -/
inductive Expecting where
  | value
  | valueOrEnd
  | key (members : List (Option String × Json))
  | keyOrEnd
  | colon (members : List (Option String × Json)) (key : Option String)
  /-- A value was read, and a comma or the end of its collection follows. -/
  | after (value : Json)

/-- The value that one token is, if it is one. -/
def ofToken? : Token → Option Json
  | .null => some .null
  | .boolean b => some (.boolean b)
  | .number => some .number
  | .string s => some (.string s)
  | _ => none

/-- The value of a list of tokens, read inside the open collections. -/
def read? : Expecting → List Opening → List Token → Option Json
  | .after v, [], [] => some v
  | .after v, .array items :: stack, .comma :: ts => read? .value (.array (v :: items) :: stack) ts
  | .after v, .array items :: stack, .closeBracket :: ts =>
    read? (.after (.array (v :: items).reverse)) stack ts
  | .after v, .object members key :: stack, .comma :: ts =>
    read? (.key ((key, v) :: members)) stack ts
  | .after v, .object members key :: stack, .closeBrace :: ts =>
    read? (.after (.object ((key, v) :: members).reverse)) stack ts
  | .after _, _, _ => none
  | .key members, stack, .string s :: ts => read? (.colon members s) stack ts
  | .key _, _, _ => none
  | .keyOrEnd, stack, .closeBrace :: ts => read? (.after (.object [])) stack ts
  | .keyOrEnd, stack, .string s :: ts => read? (.colon [] s) stack ts
  | .keyOrEnd, _, _ => none
  | .colon members s, stack, .colon :: ts => read? .value (.object members s :: stack) ts
  | .colon _ _, _, _ => none
  | .valueOrEnd, .array items :: stack, .closeBracket :: ts =>
    read? (.after (.array items.reverse)) stack ts
  | _, stack, .openBracket :: ts => read? .valueOrEnd (.array [] :: stack) ts
  | _, stack, .openBrace :: ts => read? .keyOrEnd stack ts
  | _, stack, t :: ts => (ofToken? t).bind fun v => read? (.after v) stack ts
  | _, _, [] => none

/-- The value of a text. -/
def parse? (text : String) : Option Json := (tokens? text).bind (read? .value [])

end Json
end RegisterForm
