import JsonWriter.Text.Escape
import JsonWriter.Text.Printable

/-!
Texts and bytes as quoted literals, for messages. What does not show on a page is escaped; single
quotes stand around, double quotes if the content holds single ones only.
-/

namespace JsonWriter.Quoted

def singleQuote : CodePoint := .ofChar '\''

def doubleQuote : CodePoint := .ofChar '"'

/-- The quote that goes around the content. -/
def delimiter (content : Text) : CodePoint :=
  if singleQuote ∈ content ∧ doubleQuote ∉ content then doubleQuote else singleQuote

/-- The escapes that both kinds of literal share. -/
def common? (quote c : CodePoint) : Option Text :=
  if c = quote ∨ c.val = 0x5C then some [.ofChar '\\', c]
  else if c.val = 0x09 then some (text "\\t")
  else if c.val = 0x0A then some (text "\\n")
  else if c.val = 0x0D then some (text "\\r")
  else none

/-- An escape by number, as short as the number allows. -/
def numbered (n : Nat) : Text :=
  if n < 0x100 then text "\\x" ++ Escape.hex 2 n
  else if n < 0x10000 then text "\\u" ++ Escape.hex 4 n
  else text "\\U" ++ Escape.hex 8 n

def textImage (quote c : CodePoint) : Text :=
  (common? quote c).getD (if c.IsPrintable then [c] else numbered c.val)

def byteImage (quote c : CodePoint) : Text :=
  (common? quote c).getD (if 0x20 ≤ c.val ∧ c.val < 0x7F then [c] else numbered c.val)

def enclose (image : CodePoint → CodePoint → Text) (content : Text) : Text :=
  let quote := delimiter content
  quote :: content.flatMap (image quote) ++ [quote]

def ofText (t : Text) : Text := enclose textImage t

def ofBytes (data : List UInt8) : Text :=
  .ofChar 'b' :: enclose byteImage (data.map .ofByte)

/-- As `byteImage`, but a single quote is escaped whatever stands around. -/
def cautiousImage (quote c : CodePoint) : Text :=
  if c = singleQuote then [.ofChar '\\', c] else byteImage quote c

/-- The literal of bytes that can be changed in place. -/
def ofByteArray (data : List UInt8) : Text :=
  text "bytearray(b" ++ enclose cautiousImage (data.map .ofByte) ++ text ")"

end JsonWriter.Quoted
