import TensorDag.MachineType
import TensorDag.Text.Blank

/-!
Texts that spell machine types: names, a letter with a number of bytes, times with a unit, and lists
of types with repetitions. `Spelling.ofText` says what a text spells.
-/
namespace TensorDag

/-- What is spelled. -/
inductive Spelling
  | machine (t : MachineType)
  /-- A type that no value here is held as, of a number of bytes. -/
  | other (size : Nat)
  /-- A type put together from others. -/
  | composite
  /-- Parts that are types but do not fit together. -/
  | unfit
  | unknown
  /-- A repetition that is not a number, nor numbers in parentheses. -/
  | malformed

namespace Spelling
open MachineType

/-- Names of the types. -/
def names : List (String × Spelling) := [
  ("bool", .machine truth), ("bool_", .machine truth), ("int8", .machine (signed 1)),
  ("byte", .machine (signed 1)), ("int16", .machine (signed 2)), ("short", .machine (signed 2)),
  ("int32", .machine (signed 4)), ("intc", .machine (signed 4)), ("int64", .machine (signed 8)),
  ("int", .machine (signed 8)), ("int_", .machine (signed 8)), ("long", .machine (signed 8)),
  ("longlong", .machine (signed 8)), ("intp", .machine (signed 8)),
  ("uint8", .machine (unsigned 1)), ("ubyte", .machine (unsigned 1)),
  ("uint16", .machine (unsigned 2)), ("ushort", .machine (unsigned 2)),
  ("uint32", .machine (unsigned 4)), ("uintc", .machine (unsigned 4)),
  ("uint64", .machine (unsigned 8)), ("uint", .machine (unsigned 8)),
  ("ulong", .machine (unsigned 8)), ("ulonglong", .machine (unsigned 8)),
  ("uintp", .machine (unsigned 8)), ("float16", .machine (floating .half)),
  ("half", .machine (floating .half)), ("float32", .machine (floating .single)),
  ("single", .machine (floating .single)), ("float64", .machine (floating .double)),
  ("float", .machine (floating .double)), ("double", .machine (floating .double)),
  ("str", .machine (text 0)), ("str_", .machine (text 0)), ("unicode", .machine (text 0)),
  ("bytes", .machine (octets 0)), ("bytes_", .machine (octets 0)), ("float128", .other 16),
  ("longdouble", .other 16), ("complex", .other 16), ("complex128", .other 16),
  ("cdouble", .other 16), ("complex64", .other 8), ("csingle", .other 8), ("complex256", .other 32),
  ("clongdouble", .other 32), ("object", .other 8), ("object_", .other 8), ("void", .other 0),
  ("datetime64", .other 8), ("timedelta64", .other 8)]

/-- Letters of the types. -/
def letters : List (Char × Spelling) := [
  ('?', .machine truth), ('b', .machine (signed 1)), ('B', .machine (unsigned 1)),
  ('h', .machine (signed 2)), ('H', .machine (unsigned 2)), ('i', .machine (signed 4)),
  ('I', .machine (unsigned 4)), ('l', .machine (signed 8)), ('L', .machine (unsigned 8)),
  ('q', .machine (signed 8)), ('Q', .machine (unsigned 8)), ('f', .machine (floating .single)),
  ('d', .machine (floating .double)), ('g', .other 16), ('F', .other 8), ('D', .other 16),
  ('G', .other 32), ('O', .other 8), ('S', .machine (octets 0)), ('U', .machine (text 0)),
  ('V', .other 0), ('M', .other 8), ('m', .other 8), ('e', .machine (floating .half)),
  ('n', .machine (signed 8)), ('p', .machine (signed 8)), ('N', .machine (unsigned 8)),
  ('P', .machine (unsigned 8)), ('a', .machine (octets 0)), ('c', .machine (octets 1)),
  ('T', .other 16)]

/-- The type of a single character: a letter, or the number of one of the first letters. -/
def ofLetter? (c : Char) : Option Spelling :=
  if c.toNat < 24 then (letters[c.toNat]?).map Prod.snd
  else if c.toNat = 26 then some (.machine (octets 1))
  else letters.lookup c

/-- The type of a letter of a kind with a number of bytes. -/
def ofSized? (kind : Char) (size : Nat) : Option Spelling :=
  match kind with
  | 'S' | 'a' => some (.machine (octets size))
  | 'U' => some (.machine (text size))
  | 'V' => some (.other size)
  | 'b' => if size = 1 then some (.machine truth) else none
  | 'i' => if [1, 2, 4, 8].contains size then some (.machine (signed size)) else none
  | 'u' => if [1, 2, 4, 8].contains size then some (.machine (unsigned size)) else none
  | 'f' =>
    if size = 2 then some (.machine (floating .half))
    else if size = 4 then some (.machine (floating .single))
    else if size = 8 then some (.machine (floating .double))
    else if size = 16 then some (.other 16) else none
  | 'c' => if [8, 16, 32].contains size then some (.other size) else none
  | 'O' => if [4, 8].contains size then some (.other 8) else none
  | 'M' | 'm' => if size = 8 then some (.other 8) else none
  | _ => none

def natOf (digits : List Char) : Nat := digits.foldl (fun n c => 10 * n + (c.toNat - '0'.toNat)) 0

/-- Blanks of ASCII other than the information separators. -/
def isGap (c : Char) : Bool := c = ' ' || (0x9 ≤ c.toNat && c.toNat ≤ 0xd)

/-- A whole number behind blanks and a sign, with what follows it. -/
def number? (cs : List Char) : Option (Int × List Char) :=
  let body := cs.dropWhile isGap
  let (negative, rest) := match body with
    | '-' :: rest => (true, rest)
    | '+' :: rest => (false, rest)
    | rest => (false, rest)
  match rest.takeWhile Char.isDigit with
  | [] => none
  | digits =>
    let value : Int := natOf digits
    some (if negative then -value else value, rest.dropWhile Char.isDigit)

def maxSize : Int := 2 ^ 31 - 1

/-- A letter with a number behind it. The result is `none` where the text may still be a name. -/
def ofCode? (kind : Char) (cs : List Char) : Option Spelling :=
  match number? cs with
  | none => none
  | some (size, rest) =>
    if size < 0 ∨ maxSize < size then some .unknown
    else if !rest.isEmpty then none
    else if kind = 'U' && maxSize / 4 < size then some .unknown
    else ofSized? kind size.toNat

def units : List String := ["Y", "M", "W", "D", "h", "m", "s", "ms", "us", "\u03bcs", "ns", "ps", "fs",
  "as", "generic"]

/-- The unit behind a type of times: none at all, or one in brackets with a number in front and
perhaps a number that divides it. -/
def isUnit (cs : List Char) : Bool :=
  match cs with
  | [] => true
  | '[' :: rest =>
    let inner := rest.takeWhile (· ≠ ']')
    let unit := match number? inner with
      | some (_, unit) => unit
      | none => inner
    let name := unit.takeWhile (· ≠ '/')
    let divisor := (unit.dropWhile (· ≠ '/')).drop 1
    rest.dropWhile (· ≠ ']') = [']'] && units.contains (String.ofList name) &&
      (!unit.contains '/' || match number? divisor with | some (_, []) => true | _ => false)
  | _ => false

/-- What follows the name of a type of times, if the text begins with one. -/
def afterTime? (cs : List Char) : Option (List Char) :=
  (["M8", "m8", "datetime64", "timedelta64"].find? fun name => name.toList.isPrefixOf cs).map
    fun name => cs.drop name.length

def isOrder (c : Char) : Bool := c = '<' || c = '>' || c = '=' || c = '|'

/-- A text that spells one type. -/
def ofSingle (s : String) : Spelling :=
  let body := match s.toList with
    | c :: rest => if isOrder c then rest else c :: rest
    | [] => []
  let named := (names.lookup s).getD .unknown
  match body, afterTime? body with
  | _, some unit => if isUnit unit then .other 8 else .unknown
  | [], none => .unknown
  | [c], none => (ofLetter? c).getD named
  | c :: rest, none => (ofCode? c rest).getD named

/-- Whether a comma stands outside of brackets. -/
def hasComma : Nat → List Char → Bool
  | _, [] => false
  | depth, c :: rest =>
    let inner := if c = '[' then depth + 1 else if c = ']' then depth - 1 else depth
    (c = ',' && depth = 0) || hasComma inner rest

/-- Whether a text spells several types, or one with a repetition. -/
def isList (cs : List Char) : Bool :=
  let begins (rest : List Char) : Bool :=
    (rest.head?.map Char.isDigit).getD false || ['(', ')'].isPrefixOf rest
  begins cs || (match cs with | c :: rest => isOrder c && begins rest | [] => false) || hasComma 0 cs

/-- How often a type is repeated. -/
inductive Repetition
  | once
  | times
  | shaped (empty : Bool)

/-- Whether a text is a number without zeros in front. -/
def isNumeral (digits : List Char) : Bool :=
  !digits.isEmpty && digits.all Char.isDigit && (digits.head? ≠ some '0' || digits.all (· = '0'))

def trimmed (cs : List Char) : List Char := Text.trimBy (· = ' ') cs

/-- Numbers with commas between them; a comma may follow the last one. -/
def ofNumbers? (cs : List Char) : Option Repetition :=
  let items := ((String.ofList cs).splitOn ",").map fun item => trimmed item.toList
  match items.reverse with
  | [] => none
  | [only] => if isNumeral only then some .times else none
  | last :: others =>
    if others.all isNumeral && (isNumeral last || last.isEmpty) then some (.shaped false) else none

/-- What a repetition says. -/
def repetition? (cs : List Char) : Option Repetition :=
  match trimmed cs with
  | '(' :: rest =>
    if rest.getLast? = some ')' then
      let inner := rest.dropLast
      if inner.all (· = ' ') then some (.shaped true) else ofNumbers? inner
    else none
  | body => if body.getLast? = some ')' then none else ofNumbers? body

/-- One type of a list, with its repetition. -/
structure Item where
  repetition : Repetition
  type : String

def optional (p : Char → Bool) : List Char → List Char × List Char
  | c :: rest => if p c then ([c], rest) else ([], c :: rest)
  | [] => ([], [])

/-- A parameter in brackets, if it is closed. -/
def bracket (cs : List Char) : List Char × List Char :=
  match cs with
  | '[' :: rest =>
    match rest.span fun c => c.isAlphanum || c = ',' || c = '.' with
    | (inner, ']' :: others) => ('[' :: inner ++ [']'], others)
    | _ => ([], cs)
  | cs => ([], cs)

/-- An item in its parts: first mark, repetition, second mark and type, and what follows. -/
def parts (cs : List Char) : List Char × List Char × List Char × List Char × List Char :=
  let (first, cs) := optional isOrder cs
  let (margin, cs) := cs.span (· = ' ')
  let (opening, cs) := optional (· = '(') cs
  let (inner, cs) := cs.span fun c => c = ' ' || c = ',' || c.isDigit
  let (closing, cs) := optional (· = ')') cs
  let (tail, cs) := cs.span (· = ' ')
  let (second, cs) := optional isOrder cs
  let (name, cs) := cs.span fun c => c.isAlphanum || c = '.' || c = '?'
  let (parameter, cs) := bracket cs
  (first, margin ++ opening ++ inner ++ closing ++ tail, second, name ++ parameter, cs)

/-- The order mark of two, of which one may be missing; `none` where they disagree. -/
def order? (first second : List Char) : Option (List Char) :=
  let native (mark : List Char) : List Char := if mark = ['='] then ['<'] else mark
  let chosen :=
    if second.isEmpty then some first
    else if first.isEmpty then some second
    else if native first = native second then some (native first) else none
  chosen.map fun mark => if mark = ['>'] then mark else []

/-- What stands between two items. -/
inductive Gap
  | none
  | comma (rest : List Char)
  | bad

def gap (cs : List Char) : Gap :=
  match cs.dropWhile Text.isBlank with
  | [] => .none
  | ',' :: rest => .comma (rest.dropWhile Text.isBlank)
  | _ => .bad

/-- The items of a list, whether there are commas, or what is wrong. -/
def items : Nat → List Char → Except Spelling (List Item × Bool)
  | 0, _ | _, [] => .ok ([], false)
  | fuel + 1, cs =>
    let (first, repetition, second, type, rest) := parts cs
    match gap rest, order? first second with
    | .bad, _ | _, none => .error .unfit
    | between, some order =>
      let text := String.ofList (order ++ type)
      let item : Except Spelling Item :=
        if repetition.isEmpty then .ok ⟨.once, text⟩
        else ((repetition? repetition).map fun r => .ok ⟨r, text⟩).getD (.error .malformed)
      match item, between with
      | .error e, _ => .error e
      | .ok item, .comma rest => (items fuel rest).map fun (others, _) => (item :: others, true)
      | .ok item, _ => .ok ([item], false)

/-- Bytes of a type that values of one size have; zero of one that is put together. -/
def size? : Spelling → Option Nat
  | .machine t => if t.size = 0 then none else some t.size
  | .other size => if size = 0 then none else some size
  | _ => some 0

/-- A type with its repetition. -/
def Item.spelling (item : Item) : Spelling :=
  let type := ofSingle item.type
  match type, item.repetition with
  | .unknown, _ => .unknown
  | type, .once => type
  | _, .times => .composite
  | type, .shaped empty =>
    match type.size? with
    | some _ => if empty then type else .composite
    | none => .unknown

/-- Whether nothing is spelled, or nothing that fits. -/
def isFault : Spelling → Bool
  | .machine _ | .other _ | .composite => false
  | _ => true

/-- What several types come to: the first fault, if there is one. -/
def combined (types : List Spelling) : Spelling := (types.find? isFault).getD .composite

def ofItems (items : List Item) (list : Bool) : Spelling :=
  match items.map Item.spelling, list with
  | [one], false => one
  | types, _ => combined types

def ofText (s : String) : Spelling :=
  let cs := s.toList
  if isList cs then
    match items cs.length cs with
    | .ok (found, list) => ofItems found list
    | .error fault => fault
  else ofSingle s

end Spelling
end TensorDag
