import SigComp.Settings

/-!
# Settings documents

Settings are written as a TOML document.  Every setting is an integer or a truth
value at the top level, so a document that can be accepted is a sequence of lines
`key = value`, comments and blank lines.  A table, a dotted key, a string, a float
or a date holds no setting and makes the document unreadable, as does a key that
is unknown or written twice.

* `line?` reads one line, `entries?` all of them;
* `Settings.assign?` puts one entry into the settings;
* `Settings.load` reads, normalizes and checks.
-/

namespace SigComp

namespace Document

/-- A value that a setting can have. -/
inductive Scalar where
  | integer (value : Int)
  | boolean (value : Bool)
  deriving DecidableEq, Repr

/-! ## Characters -/

/-- Space and tab separate; line ends do not. -/
def isBlank (c : Char) : Bool := c == ' ' || c == '\t'

/-- The characters that may stand in a comment or between quotes: no control character but tab. -/
def isText (c : Char) : Bool := c == '\t' || (' ' ≤ c && c != '\x7f')

/-- The characters of a key without quotes. -/
def isBareKey (c : Char) : Bool := c.isAlphanum || c == '_' || c == '-'

/-- The value of a digit in the given base. -/
def digit? (base : Nat) (c : Char) : Option Nat :=
  let v := if c.isDigit then c.toNat - 48
    else if 'a' ≤ c && c ≤ 'f' then c.toNat - 87
    else if 'A' ≤ c && c ≤ 'F' then c.toNat - 55
    else base
  if v < base then some v else none

/-! ## Integers -/

/-- The digits that continue a number, with single underscores between them. -/
def moreDigits? (base acc : Nat) : List Char → Option (Nat × List Char)
  | [] => some (acc, [])
  | ['_'] => none
  | '_' :: c :: rest => (digit? base c).bind fun d => moreDigits? base (acc * base + d) rest
  | c :: rest =>
    match digit? base c with
    | some d => moreDigits? base (acc * base + d) rest
    | none => some (acc, c :: rest)

/-- A number of at least one digit. -/
def digits? (base : Nat) : List Char → Option (Nat × List Char)
  | [] => none
  | c :: rest => (digit? base c).bind fun d => moreDigits? base d rest

/-- A decimal number, which starts with zero only if it is zero. -/
def decimal? : List Char → Option (Nat × List Char)
  | '0' :: rest => some (0, rest)
  | cs => digits? 10 cs

/-- An integer of 64 bits: decimal with an optional sign, or unsigned in base 16, 8 or 2. -/
def integer? (cs : List Char) : Option (Int × List Char) := do
  let (value, rest) ← match cs with
    | '0' :: 'x' :: rest => (digits? 16 rest).map fun (n, r) => (Int.ofNat n, r)
    | '0' :: 'o' :: rest => (digits? 8 rest).map fun (n, r) => (Int.ofNat n, r)
    | '0' :: 'b' :: rest => (digits? 2 rest).map fun (n, r) => (Int.ofNat n, r)
    | '-' :: rest => (decimal? rest).map fun (n, r) => (-Int.ofNat n, r)
    | '+' :: rest => (decimal? rest).map fun (n, r) => (Int.ofNat n, r)
    | rest => (decimal? rest).map fun (n, r) => (Int.ofNat n, r)
  if -0x8000000000000000 ≤ value ∧ value < 0x8000000000000000 then some (value, rest) else none

/-- The value of an entry, and what follows it. -/
def scalar? : List Char → Option (Scalar × List Char)
  | 't' :: 'r' :: 'u' :: 'e' :: rest => some (.boolean true, rest)
  | 'f' :: 'a' :: 'l' :: 's' :: 'e' :: rest => some (.boolean false, rest)
  | cs => (integer? cs).map fun (n, rest) => (.integer n, rest)

/-! ## Keys -/

/-- The character with the given hexadecimal digits; surrogates name none. -/
def codePoint? (hex : List Char) : Option Char := do
  let n ← hex.foldlM (fun acc c => (digit? 16 c).map (acc * 16 + ·)) 0
  if n.isValidChar then some (Char.ofNat n) else none

/-- The rest of a key in double quotes, with its escapes resolved. -/
def quotedKey? (acc : List Char) : List Char → Option (List Char × List Char)
  | '"' :: rest => some (acc.reverse, rest)
  | '\\' :: 'b' :: rest => quotedKey? ('\x08' :: acc) rest
  | '\\' :: 't' :: rest => quotedKey? ('\t' :: acc) rest
  | '\\' :: 'n' :: rest => quotedKey? ('\n' :: acc) rest
  | '\\' :: 'f' :: rest => quotedKey? ('\x0c' :: acc) rest
  | '\\' :: 'r' :: rest => quotedKey? ('\r' :: acc) rest
  | '\\' :: '"' :: rest => quotedKey? ('"' :: acc) rest
  | '\\' :: '\\' :: rest => quotedKey? ('\\' :: acc) rest
  | '\\' :: 'u' :: a :: b :: c :: d :: rest =>
    (codePoint? [a, b, c, d]).bind fun x => quotedKey? (x :: acc) rest
  | '\\' :: 'U' :: a :: b :: c :: d :: e :: f :: g :: h :: rest =>
    (codePoint? [a, b, c, d, e, f, g, h]).bind fun x => quotedKey? (x :: acc) rest
  | '\\' :: _ => none
  | c :: rest => if isText c then quotedKey? (c :: acc) rest else none
  | [] => none

/-- The key of an entry, and what follows it. -/
def key? : List Char → Option (List Char × List Char)
  | '"' :: rest => quotedKey? [] rest
  | '\'' :: rest =>
    let name := rest.takeWhile (· != '\'')
    match rest.dropWhile (· != '\'') with
    | _ :: after => if name.all isText then some (name, after) else none
    | [] => none
  | cs =>
    let name := cs.takeWhile isBareKey
    if name.isEmpty then none else some (name, cs.dropWhile isBareKey)

/-! ## Lines -/

/-- What may follow a value on its line: blanks and a comment. -/
def isTrailer (cs : List Char) : Bool :=
  match cs.dropWhile isBlank with
  | [] => true
  | '#' :: comment => comment.all isText
  | _ => false

/-- An entry: a key, an equals sign and a value. -/
def pair? (cs : List Char) : Option (String × Scalar) := do
  let (name, rest) ← key? cs
  match rest.dropWhile isBlank with
  | '=' :: rest =>
    let (value, rest) ← scalar? (rest.dropWhile isBlank)
    if isTrailer rest then some (String.ofList name, value) else none
  | _ => none

/-- The entry of a line, if it has one; the outer `none` is a line that cannot be read. -/
def line? (cs : List Char) : Option (Option (String × Scalar)) :=
  if isTrailer cs then some none else (pair? (cs.dropWhile isBlank)).map some

/-- The lines of a document.  A carriage return belongs to the line end only before a newline. -/
def lines (acc : List Char) : List Char → List (List Char)
  | [] => [acc.reverse]
  | '\r' :: '\n' :: rest => acc.reverse :: lines [] rest
  | '\n' :: rest => acc.reverse :: lines [] rest
  | c :: rest => lines (c :: acc) rest

/-- A byte order mark in front of a document says nothing. -/
def dropMark : List Char → List Char
  | '\ufeff' :: rest => rest
  | cs => cs

/-- The entries of a document in order; no key may be written twice. -/
def entries? (text : String) : Option (List (String × Scalar)) := do
  let found ← (lines [] (dropMark text.toList)).mapM line?
  let entries := found.filterMap id
  if (entries.map (·.1)).Nodup then some entries else none

/-! ## Values of settings -/

/-- A count, which is not negative. -/
def Scalar.natural? : Scalar → Option Nat
  | .integer n => if 0 ≤ n then some n.toNat else none
  | .boolean _ => none

/-- A number of 16 bits. -/
def Scalar.word? : Scalar → Option UInt16
  | .integer n => if 0 ≤ n ∧ n < 65536 then some (UInt16.ofNat n.toNat) else none
  | .boolean _ => none

/-- A truth value. -/
def Scalar.truth? : Scalar → Option Bool
  | .boolean b => some b
  | .integer _ => none

end Document

namespace Settings

open Document

/-- The settings with the named one replaced; no other names are known. -/
def assign? (s : Settings) (name : String) (v : Scalar) : Option Settings :=
  match name with
  | "max_open_compartments" => v.natural?.map fun n => { s with openCompartments := n }
  | "max_temp_compartments" => v.natural?.map fun n => { s with temporaryCompartments := n }
  | "max_states_per_compartment" => v.natural?.map fun n => { s with statesPerCompartment := n }
  | "temp_compartment_timeout_ms" => v.natural?.map fun n => { s with timeoutMs := n }
  | "static_dic_3485_mandatory" => v.truth?.map fun b => { s with dictionaryMandatory := b }
  | "decompression_memory_size" => v.natural?.map fun n => { s with decompressionMemory := n }
  | "state_memory_size" => v.natural?.map fun n => { s with stateMemory := n }
  | "cycles_per_bit" => v.word?.map fun n => { s with cyclesPerBit := n }
  | "small_buffer_size" => v.natural?.map fun n => { s with smallBuffer := n }
  | "medium_buffer_size" => v.natural?.map fun n => { s with mediumBuffer := n }
  | "large_buffer_size" => v.natural?.map fun n => { s with largeBuffer := n }
  | "small_pool_amount" => v.natural?.map fun n => { s with smallAmount := n }
  | "medium_pool_amount" => v.natural?.map fun n => { s with mediumAmount := n }
  | "large_pool_amount" => v.natural?.map fun n => { s with largeAmount := n }
  | _ => none

/-- The settings that a document states over the defaults. -/
def read? (text : String) : Option Settings := do
  (← entries? text).foldlM (fun s (name, v) => s.assign? name v) {}

/-- Why settings could not be loaded. -/
inductive LoadError where
  | unreadable
  | invalid (error : Error)
  deriving DecidableEq, Repr

/-- The settings of a document, normalized and then checked. -/
def load (text : String) : Except LoadError Settings :=
  match read? text with
  | none => .error .unreadable
  | some s =>
    match s.normalized.check with
    | .ok () => .ok s.normalized
    | .error e => .error (.invalid e)

end Settings

end SigComp
