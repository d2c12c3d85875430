import ManagedPdb.Text.Hex
import ManagedPdb.Text.Unprintable

/-!
# Quoted text

Text between double quotes, in which every character can be seen.  Quotes, backslashes and the
common controls have short forms; any other character that would not be visible on its own is given
by its code point.
-/

namespace ManagedPdb.Quoted

/-- A code point in braces. -/
def byCode (char : Char) : List Char :=
  ['\\', 'u', Char.ofNat 0x7b] ++ Hex.digits char.toNat ++ [Char.ofNat 0x7d]

/-- Whether a character stands for itself. -/
def isVisible (char : Char) : Bool :=
  if char.toNat < 0x7f then 0x20 ≤ char.toNat else !Text.isUnprintable char

/-- The form of a character between quotes. -/
def ofChar (char : Char) : List Char :=
  if char = '"' then ['\\', '"']
  else if char = '\\' then ['\\', '\\']
  else if char = '\n' then ['\\', 'n']
  else if char = '\r' then ['\\', 'r']
  else if char = '\t' then ['\\', 't']
  else if char = Char.ofNat 0 then ['\\', '0']
  else if isVisible char then [char]
  else byCode char

def ofString (text : String) : String :=
  String.ofList ('"' :: text.toList.flatMap ofChar ++ ['"'])

end ManagedPdb.Quoted
