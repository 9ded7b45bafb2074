import GbfCore.Lib.Decimal
import GbfCore.Lib.Json.Text

/-!
# JSON values and the scanner of encoding/json

`Value.render` is the compact text that `json.Marshal` writes for a value. The
scanner reads a text byte by byte, with the open arrays and objects on a stack, and
builds the value (`parse`); it accepts exactly the texts that `json.Unmarshal` goes
on to decode. Numbers keep their text, objects keep all their members in order.
-/

namespace GbfCore.Json

/-- A JSON value. -/
inductive Value where
  | null
  | bool (b : Bool)
  | num (text : Bytes)
  | str (s : Bytes)
  | arr (elems : List Value)
  | obj (members : List (Bytes × Value))

/-- An integer as a value. -/
def Value.int (i : Int) : Value := .num (intText i)

/-! ## Writing -/

mutual
/-- The text of a value. -/
def Value.render : Value → Bytes
  | .null => ascii "null"
  | .bool true => ascii "true"
  | .bool false => ascii "false"
  | .num text => text
  | .str s => quote s
  | .arr elems => 0x5b :: renderElems elems ++ [0x5d]
  | .obj members => 0x7b :: renderMembers members ++ [0x7d]

/-- The text between the brackets of an array. -/
def Value.renderElems : List Value → Bytes
  | [] => []
  | [v] => v.render
  | v :: vs => v.render ++ 0x2c :: renderElems vs

/-- The text between the braces of an object. -/
def Value.renderMembers : List (Bytes × Value) → Bytes
  | [] => []
  | [(k, v)] => quote k ++ 0x3a :: v.render
  | (k, v) :: ms => quote k ++ 0x3a :: v.render ++ 0x2c :: renderMembers ms
end

mutual
/-- The value with its strings coerced to UTF-8. -/
def Value.coerce : Value → Value
  | .null => .null
  | .bool b => .bool b
  | .num text => .num text
  | .str s => .str (GbfCore.coerce s)
  | .arr elems => .arr (coerceElems elems)
  | .obj members => .obj (coerceMembers members)

def Value.coerceElems : List Value → List Value
  | [] => []
  | v :: vs => v.coerce :: coerceElems vs

def Value.coerceMembers : List (Bytes × Value) → List (Bytes × Value)
  | [] => []
  | (k, v) :: ms => (GbfCore.coerce k, v.coerce) :: coerceMembers ms
end

/-! ## Numbers -/

/-- The states of the scanner in a number. -/
inductive NumState where
  | neg
  | zero
  | int
  | dot
  | frac
  | e
  | eSign
  | exp
deriving DecidableEq

/-- A byte that starts a number. -/
def numStart (c : UInt8) : Option NumState :=
  if c = minus then some .neg
  else if c = 0x30 then some .zero
  else if isDigit c then some .int
  else none

/-- A byte that continues a number. -/
def numNext : NumState → UInt8 → Option NumState
  | .neg, c => if c = 0x30 then some .zero else if isDigit c then some .int else none
  | .zero, c => if c = 0x2e then some .dot else if c = 0x65 ∨ c = 0x45 then some .e else none
  | .int, c =>
    if isDigit c then some .int
    else if c = 0x2e then some .dot
    else if c = 0x65 ∨ c = 0x45 then some .e
    else none
  | .dot, c => if isDigit c then some .frac else none
  | .frac, c =>
    if isDigit c then some .frac else if c = 0x65 ∨ c = 0x45 then some .e else none
  | .e, c => if c = 0x2b ∨ c = minus then some .eSign else if isDigit c then some .exp else none
  | .eSign, c => if isDigit c then some .exp else none
  | .exp, c => if isDigit c then some .exp else none

/-- A number may end here. -/
def NumState.final : NumState → Bool
  | .zero => true
  | .int => true
  | .frac => true
  | .exp => true
  | _ => false

/-- The state after more bytes of a number. -/
def numRun : NumState → Bytes → Option NumState
  | st, [] => some st
  | st, c :: rest => (numNext st c).bind fun st' => numRun st' rest

/-- The text of a number. -/
def IsNumeral (text : Bytes) : Prop :=
  ∃ c rest st st', text = c :: rest ∧ numStart c = some st ∧ numRun st rest = some st' ∧
    st'.final = true

/-! ## The scanner -/

/-- An open array or object. -/
inductive Frame where
  | arr (elems : List Value)
  | obj (members : List (Bytes × Value))
  /-- the value of this key comes next -/
  | member (members : List (Bytes × Value)) (key : Bytes)

/-- Where the scanner is in a string. -/
inductive Esc where
  | plain
  /-- behind a backslash -/
  | escape
  /-- behind `\u`, with that many digits to come after the next -/
  | hex (left : Nat)
deriving DecidableEq

/-- What the scanner expects (the `state` functions of scanner.go). -/
inductive Mode where
  | value
  | valueOrEnd
  | keyOrEnd
  | key
  | colon
  | str (isKey : Bool) (raw : Bytes) (esc : Esc)
  | num (st : NumState) (text : Bytes)
  | lit (rest : Bytes) (v : Value)
  /-- a value has ended inside an array or object -/
  | ended
  /-- the top-level value has ended -/
  | done (v : Value)

/-- The state of the scanner. -/
structure Scanner where
  mode : Mode
  stack : List Frame

/-- `maxNestingDepth` -/
def maxNestingDepth : Nat := 10000

/-- White space. -/
def isSpace (c : UInt8) : Bool :=
  decide (c = 0x20) || decide (c = 0x09) || decide (c = 0x0d) || decide (c = 0x0a)

/-- Open an array or object (`pushParseState`). -/
def openFrame (f : Frame) (mode : Mode) (stack : List Frame) : Option Scanner :=
  if stack.length < maxNestingDepth then some ⟨mode, f :: stack⟩ else none

/-- A value has ended. -/
def deliver (v : Value) : List Frame → Scanner
  | .arr elems :: stack => ⟨.ended, .arr (elems ++ [v]) :: stack⟩
  | .member members key :: stack => ⟨.ended, .obj (members ++ [(key, v)]) :: stack⟩
  | stack => ⟨.done v, stack⟩

/-- `stateBeginValue`. -/
def beginValue (stack : List Frame) (c : UInt8) : Option Scanner :=
  if isSpace c then some ⟨.value, stack⟩
  else if c = 0x7b then openFrame (.obj []) .keyOrEnd stack
  else if c = 0x5b then openFrame (.arr []) .valueOrEnd stack
  else if c = quotationMark then some ⟨.str false [] .plain, stack⟩
  else if c = 0x74 then some ⟨.lit (ascii "rue") (.bool true), stack⟩
  else if c = 0x66 then some ⟨.lit (ascii "alse") (.bool false), stack⟩
  else if c = 0x6e then some ⟨.lit (ascii "ull") .null, stack⟩
  else (numStart c).map fun st => ⟨.num st [c], stack⟩

/-- `stateBeginString`. -/
def beginString (mode : Mode) (stack : List Frame) (c : UInt8) : Option Scanner :=
  if isSpace c then some ⟨mode, stack⟩
  else if c = quotationMark then some ⟨.str true [] .plain, stack⟩
  else none

/-- `stateEndValue` and `stateEndTop`. -/
def endValue (s : Scanner) (c : UInt8) : Option Scanner :=
  if isSpace c then some s
  else
    match s.mode, s.stack with
    | .ended, .arr elems :: stack =>
      if c = 0x2c then some ⟨.value, .arr elems :: stack⟩
      else if c = 0x5d then some (deliver (.arr elems) stack)
      else none
    | .ended, .obj members :: stack =>
      if c = 0x2c then some ⟨.key, .obj members :: stack⟩
      else if c = 0x7d then some (deliver (.obj members) stack)
      else none
    | _, _ => none

/-- `stateInString` and the states behind a backslash; not for the quotation mark
that ends the string. -/
def strNext : Esc → UInt8 → Option Esc
  | .plain, c => if c = backslash then some .escape else if c < 0x20 then none else some .plain
  | .escape, c =>
    if c = 0x75 then some (.hex 3)
    else if c = 0x27 then none
    else if (simpleEscape c).isSome then some .plain
    else none
  | .hex n, c =>
    if (hexValue c).isSome then
      match n with
      | 0 => some .plain
      | n + 1 => some (.hex n)
    else none

/-- A string has ended. -/
def endString (isKey : Bool) (raw : Bytes) (stack : List Frame) : Option Scanner :=
  match unquote raw, isKey, stack with
  | some k, true, .obj members :: stack => some ⟨.colon, .member members k :: stack⟩
  | some s, false, stack => some (deliver (.str s) stack)
  | _, _, _ => none

/-- `scanner.step`. -/
def step (s : Scanner) (c : UInt8) : Option Scanner :=
  match s.mode with
  | .value => beginValue s.stack c
  | .valueOrEnd =>
    if isSpace c then some s
    else if c = 0x5d then endValue ⟨.ended, s.stack⟩ c
    else beginValue s.stack c
  | .keyOrEnd =>
    if c = 0x7d then endValue ⟨.ended, s.stack⟩ c else beginString .keyOrEnd s.stack c
  | .key => beginString .key s.stack c
  | .colon =>
    if isSpace c then some s else if c = 0x3a then some ⟨.value, s.stack⟩ else none
  | .str isKey raw esc =>
    if esc = .plain ∧ c = quotationMark then endString isKey raw s.stack
    else (strNext esc c).map fun esc' => ⟨.str isKey (raw ++ [c]) esc', s.stack⟩
  | .num st text =>
    match numNext st c with
    | some st' => some ⟨.num st' (text ++ [c]), s.stack⟩
    | none => if st.final then endValue (deliver (.num text) s.stack) c else none
  | .lit [] _ => none
  | .lit (x :: rest) v =>
    if c ≠ x then none
    else if rest = [] then some (deliver v s.stack)
    else some ⟨.lit rest v, s.stack⟩
  | .ended => endValue s c
  | .done _ => endValue s c

/-- Read a text. -/
def scan : Scanner → Bytes → Option Scanner
  | s, [] => some s
  | s, c :: rest => (step s c).bind fun s' => scan s' rest

/-- `scanner.eof`: a number at the end of the text ends there. -/
def finish (s : Scanner) : Option Value :=
  match step s 0x20 with
  | some ⟨.done v, _⟩ => some v
  | _ => none

/-- The value of a text, if it is valid JSON. -/
def parse (data : Bytes) : Option Value := (scan ⟨.value, []⟩ data).bind finish

end GbfCore.Json
