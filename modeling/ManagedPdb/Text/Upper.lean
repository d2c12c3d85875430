import ManagedPdb.Text.UpperTable

/-!
# Upper case

The upper-case form of a text is the concatenation of the upper-case forms of its characters, none
of which depends on its neighbours.  Names of streams are compared in this form.
-/

namespace ManagedPdb.Upper

/-- The upper-case form of an ASCII character. -/
def asciiUpper (char : Char) : Char :=
  if 'a' ≤ char && char ≤ 'z' then Char.ofNat (char.toNat - 32) else char

/-- Whether a run covers a code point. -/
def covers (run : Nat × Nat × Nat × Int) (code : Nat) : Bool :=
  let (first, last, stride, _) := run
  first ≤ code && code ≤ last && (code - first) % stride == 0

def ofChar (char : Char) : List Char :=
  let code := char.toNat
  if code < 0x80 then [asciiUpper char]
  else
    match runs.find? (covers · code) with
    | some (_, _, _, shift) => [Char.ofNat (code + shift).toNat]
    | none =>
      match expansions.find? (·.1 == code) with
      | some (_, codes) => codes.map Char.ofNat
      | none => [char]

def ofString (text : String) : String := String.ofList (text.toList.flatMap ofChar)

end ManagedPdb.Upper
