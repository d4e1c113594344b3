import WebPipe.Lib.Nom
import WebPipe.Lib.Text

/-!
# Tokens

The basic parsers of `ast/parser.rs`: blanks and comments, identifiers, and quoted texts. A text is a list of characters; where the
source takes a byte offset from the standard library, so does the model.
-/

namespace WebPipe

open Nom

/-- The length of a text in bytes. -/
def utf8Len (l : List Char) : Nat := (l.map Char.utf8Size).sum

theorem utf8Len_cons (c : Char) (l : List Char) : utf8Len (c :: l) = c.utf8Size + utf8Len l := by simp [utf8Len]

theorem utf8Len_append (l l' : List Char) : utf8Len (l ++ l') = utf8Len l + utf8Len l' := by simp [utf8Len]

theorem length_le_utf8Len (l : List Char) : l.length ≤ utf8Len l := by
  induction l with
  | nil => simp [utf8Len]
  | cons c l ih =>
    have := c.utf8Size_pos
    rw [utf8Len_cons, List.length_cons]
    omega

/-- The bytes of a text beyond one for each character. -/
def extraBytes (l : List Char) : Nat := utf8Len l - l.length

/-- `str::find` of a character: the byte offset of its first occurrence. -/
def find (c : Char) (l : List Char) : Option Nat := if c ∈ l then some (utf8Len (l.takeWhile (· != c))) else none

namespace Parser

/-- The loop of `skip_ws_and_comments`, with one unit of fuel for each turn. -/
def skipLoop : Nat → Parser Unit
  | 0 => fail
  | n + 1 => do
    let _ ← multispace0
    let fragment ← rest
    if fragment.head? = some '#' then
      match find '\n' fragment with
      | some newlinePos =>
        let _ ← take (newlinePos + 1)
        skipLoop n
      | none =>
        -- the comment goes to the end of the text
        let _ ← take (utf8Len fragment)
        skipLoop n
    else pure ()

/-- `skip_ws_and_comments`; every turn of the loop takes a character. -/
def skipWsAndComments : Parser Unit := fun l => skipLoop (l.length + 1) l

/-- What stands between two of a character that it does not contain. -/
def between (c : Char) : Parser String := do
  let s ← delimited (char c) (takeUntil c) (char c)
  pure (String.ofList s)

/-- `parse_multiline_string`. -/
def parseMultilineString : Parser String := between '\x60'

/-- A piece of an identifier that may also start one. -/
def identifierStart : Parser Unit := do
  let _ ← alt (do let s ← takeWhile1 Text.isAsciiAlphanumeric; pure (String.ofList s)) (tag "_")
  pure ()

/-- A piece of an identifier after its start. -/
def identifierRest : Parser Unit := alt identifierStart (do let _ ← tag "-"; pure ())

/-- `parse_identifier`. -/
def parseIdentifier : Parser String := do
  let s ← recognize (do
    identifierStart
    let _ ← many0 identifierRest
    pure ())
  pure (String.ofList s)

end Parser
end WebPipe
