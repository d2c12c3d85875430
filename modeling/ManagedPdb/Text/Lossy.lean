/-!
# Reading UTF-8 with replacements

Text that need not be well formed is read as far as it goes: each longest run of bytes that starts
a character but does not complete it, and each byte that starts none, becomes one replacement
character.
-/

namespace ManagedPdb.Lossy

/-- What the first byte of a character says about the rest. -/
structure Lead where
  /-- How many bytes follow. -/
  following : Nat
  low : UInt8
  high : UInt8
  /-- The bits of the character in the first byte. -/
  bits : Nat

/-- What a first byte says, if it is one.  The range of the second byte keeps out spellings that are
too long, surrogates, and numbers beyond the last character. -/
def lead? (byte : UInt8) : Option Lead :=
  if byte < 0x80 then some ⟨0, 0x80, 0xbf, byte.toNat⟩
  else if byte < 0xc2 then none
  else if byte < 0xe0 then some ⟨1, 0x80, 0xbf, byte.toNat - 0xc0⟩
  else if byte = 0xe0 then some ⟨2, 0xa0, 0xbf, 0⟩
  else if byte = 0xed then some ⟨2, 0x80, 0x9f, 0xd⟩
  else if byte < 0xf0 then some ⟨2, 0x80, 0xbf, byte.toNat - 0xe0⟩
  else if byte = 0xf0 then some ⟨3, 0x90, 0xbf, 0⟩
  else if byte < 0xf4 then some ⟨3, 0x80, 0xbf, byte.toNat - 0xf0⟩
  else if byte = 0xf4 then some ⟨3, 0x80, 0x8f, 4⟩
  else none

/-- The character that stands for bytes without a meaning. -/
def replacement : Char := Char.ofNat 0xfffd

/-- Completes a character of which `following` bytes are missing, the next of them in the range
`low … high`, and gives the bytes that are left.  If one of them does not fit, the character is the
replacement and that byte is left. -/
def complete (low high : UInt8) (bits : Nat) :
    (following : Nat) → (bytes : List UInt8) → Char × List UInt8
  | 0, bytes => (Char.ofNat bits, bytes)
  | _ + 1, [] => (replacement, [])
  | following + 1, byte :: rest =>
    if low ≤ byte && byte ≤ high then
      complete 0x80 0xbf (bits * 64 + (byte.toNat - 0x80)) following rest
    else (replacement, byte :: rest)

theorem length_complete_le (low high : UInt8) (bits following : Nat) (bytes : List UInt8) :
    (complete low high bits following bytes).2.length ≤ bytes.length := by
  fun_induction complete low high bits following bytes with
  | case1 => simp
  | case2 => simp
  | case3 low high bits following byte rest _ ih => simp only [List.length_cons]; omega
  | case4 => simp

/-- Puts the characters of `bytes` behind the text `before`. -/
def decodeOnto (before : String) (bytes : List UInt8) : String :=
  match bytes with
  | [] => before
  | byte :: rest =>
    match lead? byte with
    | none => decodeOnto (before.push replacement) rest
    | some lead =>
      let completed := complete lead.low lead.high lead.bits lead.following rest
      have := length_complete_le lead.low lead.high lead.bits lead.following rest
      decodeOnto (before.push completed.1) completed.2
termination_by bytes.length
decreasing_by
  · simp
  · simp only [List.length_cons]
    omega

def decode (bytes : ByteArray) : String := decodeOnto "" bytes.toList

end ManagedPdb.Lossy
