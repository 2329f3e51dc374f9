import CallSchema.Text.Printable

/-!
# Quoted text

How text and bytes are written between quotes.  Single quotes are used unless the content holds a
single quote and no double quote.  The backslash, the quote in use and the three common line
controls get a backslash (in growable bytes it is the single quote, in use or not); what is not printable is written by its number in lower-case hexadecimal
digits.
-/

namespace CallSchema
namespace Text

/-- Digits, filled with zeros on the left up to `width`. -/
def zeroPadded (width : Nat) (digits : List Char) : String :=
  String.ofList (List.replicate (width - digits.length) '0' ++ digits)

/-- `n` in lower-case hexadecimal digits, at least `width` of them. -/
def hexadecimal (width n : Nat) : String :=
  zeroPadded width (Nat.toDigits 16 n)

/-- `n` in decimal digits, at least `width` of them. -/
def zeroFilled (width n : Nat) : String :=
  zeroPadded width (Nat.toDigits 10 n)

/-- The quote for a content: double when the content has a single quote and no double one. -/
def quoteFor (content : List Char) : Char :=
  if content.contains '\x27' && !content.contains '\x22' then '\x22' else '\x27'

/-- The escape that quoted text and quoted bytes share, if `c` has one; `escaped` is the quote that
gets a backslash. -/
def sharedEscape? (escaped c : Char) : Option String :=
  if c = escaped || c = '\\' then some (String.ofList ['\\', c])
  else if c = '\n' then some "\\n"
  else if c = '\r' then some "\\r"
  else if c = '\t' then some "\\t"
  else none

/-- One character inside quoted text. -/
def quotedChar (quote c : Char) : String :=
  match sharedEscape? quote c with
  | some escape => escape
  | none =>
      if isPrintable c then c.toString
      else if c.toNat < 0x100 then "\\x" ++ hexadecimal 2 c.toNat
      else if c.toNat < 0x10000 then "\\u" ++ hexadecimal 4 c.toNat
      else "\\U" ++ hexadecimal 8 c.toNat

/-- One byte inside quoted bytes: only printable ASCII stands as it is. -/
def quotedByte (escaped : Char) (byte : UInt8) : String :=
  let c := Char.ofNat byte.toNat
  match sharedEscape? escaped c with
  | some escape => escape
  | none =>
      if 0x20 ≤ byte.toNat && byte.toNat < 0x7f then c.toString
      else "\\x" ++ hexadecimal 2 byte.toNat

/-- Text between quotes. -/
def quoted (text : String) : String :=
  let quote := quoteFor text.toList
  quote.toString ++ String.join (text.toList.map (quotedChar quote)) ++ quote.toString

/-- The quote for bytes. -/
def quoteForBytes (bytes : List UInt8) : Char :=
  quoteFor (bytes.map fun byte => Char.ofNat byte.toNat)

/-- Bytes between quotes, after the mark `b`; `escaped` is the quote that gets a backslash. -/
def bytesBetween (quote escaped : Char) (bytes : List UInt8) : String :=
  "b" ++ quote.toString ++ String.join (bytes.map (quotedByte escaped)) ++ quote.toString

/-- Fixed bytes between quotes: the quote in use is escaped. -/
def quotedBytes (bytes : List UInt8) : String :=
  bytesBetween (quoteForBytes bytes) (quoteForBytes bytes) bytes

/-- Growable bytes between quotes: single quotes are escaped, whichever quote is in use. -/
def quotedGrowableBytes (bytes : List UInt8) : String :=
  bytesBetween (quoteForBytes bytes) '\x27' bytes

/-- The first `width` characters of a text. -/
def clip (width : Nat) (text : String) : String :=
  String.ofList (text.toList.take width)

end Text
end CallSchema
