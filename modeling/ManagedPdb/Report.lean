import ManagedPdb.DebugInfo.Lookup
import ManagedPdb.Text.Quoted
import ManagedPdb.Text.Shortest

/-!
# Reports

A report is the readable form of the debug information of a file: three lines on the file, a block
of lines for each method, and what there is beyond methods.  It can be restricted to one method.
-/

namespace ManagedPdb.Report

/-- A number without leading zeros, behind `0x`. -/
def hex (value : UInt32) : String := Hex.marked 1 value.toNat

/-- A token: eight digits behind `0x`. -/
def token (value : UInt32) : String := Hex.marked 8 value.toNat

/-- At least so many digits, without a mark. -/
def digits (width value : Nat) : String := String.ofList (Hex.padded width value)

/-! ### Constants -/

/-- A decimal by its parts. -/
def decimal (value : Decimal) : String :=
  "Decimal \x7b negative: " ++ (if value.negative then "true" else "false")
    ++ ", scale: " ++ toString value.scale.toNat ++ ", hi: " ++ toString value.high.toNat
    ++ ", mid: " ++ toString value.middle.toNat ++ ", lo: " ++ toString value.low.toNat ++ " \x7d"

/-- The name of the form of a value, and the value. -/
def constantParts : ConstantValue → String × String
  | .int8 value => ("I8", toString value.toInt)
  | .int16 value => ("I16", toString value.toInt)
  | .uint16 value => ("U16", toString value.toNat)
  | .int32 value => ("I32", toString value.toInt)
  | .uint32 value => ("U32", toString value.toNat)
  | .int64 value => ("I64", toString value.toInt)
  | .uint64 value => ("U64", toString value.toNat)
  | .float32 bits => ("F32", FloatLayout.standard.ofBits .single bits.toNat)
  | .float64 bits => ("F64", FloatLayout.standard.ofBits .double bits.toNat)
  | .text value => ("String", Quoted.ofString value)
  | .decimal value => ("Decimal", decimal value)

/-- A value behind the name of its form. -/
def constantValue (value : ConstantValue) : String :=
  let (form, text) := constantParts value
  form ++ "(" ++ text ++ ")"

/-! ### Methods -/

/-- The lines of one scope without the scopes inside it, `depth` levels below the method. -/
def scopeLines (depth : Nat) (scope : Scope) : List String :=
  let indent := String.ofList (List.replicate (2 * (depth + 2)) ' ')
  (indent ++ "scope +" ++ hex scope.offset ++ "..+" ++ hex (scope.offset + scope.length))
    :: scope.slots.map (fun slot =>
      indent ++ "  local #" ++ toString slot.index.toNat ++ " " ++ slot.name
        ++ " (" ++ token slot.typeToken ++ ")")
    ++ scope.constants.map (fun constant =>
      indent ++ "  const " ++ constant.name ++ " = " ++ constantValue constant.value)
    ++ scope.namespaces.map (fun name => indent ++ "  using " ++ name)

def lineRecord (line : LineRecord) : String :=
  "      IL_" ++ digits 4 line.offset.toNat ++ " " ++ toString line.startLine.toNat ++ ":"
    ++ toString line.startColumn.toNat ++ "-" ++ toString line.endLine.toNat ++ ":"
    ++ toString line.endColumn.toNat

def tableLines (info : DebugInfo) (table : LineTable) : List String :=
  let heading := match table.file.bind info.source? with
    | some file => file.name ++ " (" ++ file.language.name ++ ")"
    | none => "<file " ++ hex table.fileId ++ ">"
  ("    " ++ heading) :: table.lines.map lineRecord

/-- The line on the method whose imports a method shares, if it is another one. -/
def importLines (info : DebugInfo) (method : Method) : List String :=
  match info.usingInfo? method.token with
  | some imports =>
    if imports.token = method.token then []
    else ["    using info of " ++ token imports.token]
  | none => []

def stateMachineLines (method : Method) : List String :=
  (match method.iteratorClass with
    | some name => ["    iterator class " ++ name]
    | none => [])
  ++ match method.asyncInfo with
    | some async => ["    async kickoff " ++ token async.kickoffMethod ++ ", "
        ++ toString async.syncPoints.length ++ " await points"]
    | none => []

/-- The token, the place and the name of a method. -/
def methodHeading (method : Method) : String :=
  token method.token ++ " " ++ digits 4 method.segment.toNat ++ ":"
    ++ digits 8 method.address.toNat ++ " " ++ method.name.getD "<unnamed>"

def methodLines (info : DebugInfo) (method : Method) : List String :=
  methodHeading method
    :: (method.scope.outline 0).flatMap (fun (depth, scope) => scopeLines depth scope)
    ++ importLines info method
    ++ stateMachineLines method
    ++ method.lines.flatMap (tableLines info)

/-! ### Files -/

def headerLines (info : DebugInfo) (idText : Guid → UInt32 → String := debugIdText) :
    List String := [
  "Debug ID: " ++ info.debugId idText,
  "Modules: " ++ toString info.modules.length,
  "Methods: " ++ toString info.methods.size]

/-- The lines on token lines and the source server script, if there are any. -/
def trailerLines (info : DebugInfo) : List String :=
  (if info.tokenLines.isEmpty then []
    else ["Token source lines: " ++ toString info.tokenLines.size])
  ++ if info.sourceServer = "" then [] else ["Source server data:", info.sourceServer]

/-- The lines as text, each with its line end. -/
def text (lines : List String) : String :=
  lines.foldl (fun text line => text ++ line ++ "\n") ""

/-! ### Choosing a method -/

/-- Why a text is no token. -/
inductive TokenError where
  | empty
  | invalidDigit
  | tooLarge
  deriving DecidableEq, Repr

namespace TokenError

def message : TokenError → String
  | empty => "cannot parse integer from empty string"
  | invalidDigit => "invalid digit found in string"
  | tooLarge => "number too large to fit in target type"

end TokenError

/-- The value of a hexadecimal digit in either case. -/
def digitValue? (char : Char) : Option Nat :=
  if '0' ≤ char ∧ char ≤ '9' then some (char.toNat - 0x30)
  else if 'a' ≤ char ∧ char ≤ 'f' then some (char.toNat - 0x57)
  else if 'A' ≤ char ∧ char ≤ 'F' then some (char.toNat - 0x37)
  else none

/-- The number whose digits are those of `value` and the given ones.  The first digit at fault
decides the error. -/
def digitsOnto (value : Nat) : List Char → Except TokenError UInt32
  | [] => .ok (UInt32.ofNat value)
  | char :: rest =>
    match digitValue? char with
    | none => .error .invalidDigit
    | some digit =>
      let value := 16 * value + digit
      if value < UInt32.size then digitsOnto value rest else .error .tooLarge

/-- The text without any marks `0x` in front. -/
def dropMarks : List Char → List Char
  | '0' :: 'x' :: rest => dropMarks rest
  | chars => chars

/-- The token of a text: hexadecimal digits, with one plus sign in front of them or not. -/
def unmarkedToken : List Char → Except TokenError UInt32
  | [] => .error .empty
  | ['+'] => .error .invalidDigit
  | '+' :: digits => digitsOnto 0 digits
  | digits => digitsOnto 0 digits

/-- The token of a text, which may have marks `0x` in front. -/
def parseToken (text : String) : Except TokenError UInt32 := unmarkedToken (dropMarks text.toList)

/-- A report, or as much of it as there is, and why it breaks off. -/
structure Outcome where
  output : String
  failure : Option String
  deriving DecidableEq, Repr

/-- The lines on the methods, or only on the one with the chosen token. -/
def chosenLines (info : DebugInfo) : (choice : Option String) → Except String (List String)
  | none => .ok (info.methods.toList.flatMap (methodLines info))
  | some choice =>
    match parseToken choice with
    | .error error => .error error.message
    | .ok chosen =>
      match info.method? chosen with
      | some method => .ok (methodLines info method)
      | none => .error ("Method " ++ token chosen ++ " not found")

/-- The report on a file, or only on the method with the chosen token. -/
def ofInfo (info : DebugInfo) (choice : Option String)
    (idText : Guid → UInt32 → String := debugIdText) : Outcome :=
  match chosenLines info choice with
  | .ok lines => ⟨text (headerLines info idText ++ lines ++ trailerLines info), none⟩
  | .error message => ⟨text (headerLines info idText), some message⟩

end ManagedPdb.Report
