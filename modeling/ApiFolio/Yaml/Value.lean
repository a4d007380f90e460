import ApiFolio.Json.Basic
import ApiFolio.Yaml.Anchors

/-!
# Values of YAML

The value of a plain scalar shows in its text; other scalars are strings unless their tag says
otherwise. A tag of one's own is kept around the value. Aliases stand for the value of their node;
there may not be many more of them than the document is long. A table may not have two keys that
are equal.
-/

namespace ApiFolio.Yaml

/-- A value of a YAML text. -/
inductive Value where
  | null
  | bool (b : Bool)
  /-- A whole number within 64 bits. -/
  | int (n : Int)
  /-- A double, which may be infinite or no number. -/
  | float (x : Binary64)
  | str (s : String)
  | list (items : List Value)
  /-- A table, its entries as written. -/
  | table (entries : List (Value × Value))
  | tagged (tag : String) (v : Value)
deriving Inhabited

/-! ## Scalars -/

/-- The text after a plus sign, if it starts with one. -/
def afterPlus : List Char → List Char
  | '+' :: cs => cs
  | cs => cs

/-- The text after a sign, if it starts with one. -/
def afterSign : List Char → List Char
  | '+' :: cs => cs
  | '-' :: cs => cs
  | cs => cs

/-- Whether a text is digits that start with a zero too many, after at most one sign. -/
def hasLeadingZero (cs : List Char) : Bool :=
  match afterSign cs with
  | '0' :: d :: ds => (d :: ds).all Text.isDigit
  | _ => false

/-- The number of digits in a base. -/
def natOf? (base : Nat) (ds : List Char) : Option Nat :=
  if ds.isEmpty then none
  else
    ds.foldlM (fun n d => do
      let v ← Text.hexValue? d
      if v < base then some (base * n + v) else none) 0

/-- The base that a small letter after a zero stands for. -/
def baseOf? (c : Char) : Option Nat :=
  if c = 'x' then some 16 else if c = 'o' then some 8 else if c = 'b' then some 2 else none

/-- The magnitude of a number without its sign: digits, or digits in a base after its mark. -/
def magnitude? : List Char → Option Nat
  | '0' :: c :: ds =>
    match baseOf? c with
    | some base => natOf? base ds
    | none => natOf? 10 ('0' :: c :: ds)
  | ds => natOf? 10 ds

/-- The whole number that a text writes. -/
def wholeNumber? (cs : List Char) : Option Int :=
  if hasLeadingZero cs then none
  else
    match cs with
    | '-' :: ds => (magnitude? ds).map fun n => -(n : Int)
    | _ => (magnitude? (afterPlus cs)).map fun n => (n : Int)

/-- What a whole number is: a value, or one of the refused numbers that fit 128 bits only, or too
great for a whole number at all. -/
inductive WholeNumber where
  /-- It fits 64 bits. -/
  | fits (n : Int)
  /-- It fits 128 bits only. -/
  | refused
  /-- The text is no whole number, or one that fits nowhere. -/
  | other

/-- The whole number of a text. -/
def WholeNumber.ofText (cs : List Char) : WholeNumber :=
  match wholeNumber? cs with
  | none => other
  | some n =>
    if Number.leastWhole ≤ n ∧ n ≤ Number.greatestWhole then fits n
    else if -0x80000000000000000000000000000000 ≤ n ∧ n ≤ 0xFFFFFFFFFFFFFFFFFFFFFFFFFFFFFFFF then
      refused
    else other

/-- The double that a decimal with point or exponent writes. -/
def decimal? (cs : List Char) : Option Binary64 :=
  let (negative, cs) := match cs with
    | '-' :: rest => (true, rest)
    | '+' :: rest => (false, rest)
    | rest => (false, rest)
  let whole := cs.takeWhile Text.isDigit
  let rest := cs.dropWhile Text.isDigit
  let (fraction, rest) := match rest with
    | '.' :: rest => (rest.takeWhile Text.isDigit, rest.dropWhile Text.isDigit)
    | rest => ([], rest)
  if whole.isEmpty && fraction.isEmpty then none
  else
    let digits := Text.decimalValue (whole ++ fraction)
    let exponent? : Option Int :=
      match rest with
      | [] => some 0
      | e :: rest =>
        let ds := afterSign rest
        if (e = 'e' ∨ e = 'E') ∧ !ds.isEmpty ∧ ds.all Text.isDigit then
          let n : Int := Text.decimalValue ds
          some (if rest.head? = some '-' then -n else n)
        else none
    exponent?.bind fun e =>
      let e := e - fraction.length
      let leading := e + (Text.digits 10 digits).length
      if digits = 0 ∨ leading < -400 then some (.ofPattern negative 0)
      else if 400 < leading then none
      else
        let x := Binary64.ofDecimal negative digits e
        if x.isFinite then some x else none

/-- The words for infinity, without sign. -/
def infinityWords : List String := [".inf", ".Inf", ".INF"]

/-- The words for what is no number. -/
def notANumberWords : List String := [".nan", ".NaN", ".NAN"]

/-- The double that a text writes. -/
def float? (s : String) : Option Binary64 :=
  let unsigned := afterPlus s.toList
  if infinityWords.contains (String.ofList unsigned) then
    some (.ofPattern false Binary64.infinityPattern)
  else if (infinityWords.map ("-" ++ ·)).contains s then
    some (.ofPattern true Binary64.infinityPattern)
  else if notANumberWords.contains s then
    some (.ofPattern false (Binary64.infinityPattern + 1))
  else if unsigned.length < s.toList.length ∧ (afterSign unsigned).length < unsigned.length then
    none
  else decimal? unsigned

def bool? (s : String) : Option Bool :=
  if ["true", "True", "TRUE"].contains s then some true
  else if ["false", "False", "FALSE"].contains s then some false
  else none

def nullWords : List String := ["null", "Null", "NULL", "~"]

namespace Value

/-- The value that a plain scalar shows; a number that fits 128 bits only is refused. -/
def ofPlain? (s : String) : Option Value :=
  if s.isEmpty || nullWords.contains s then some null
  else
    match bool? s with
    | some b => some (bool b)
    | none =>
      match WholeNumber.ofText s.toList with
      | .fits n => some (int n)
      | .refused => none
      | .other =>
        if hasLeadingZero s.toList then some (str s)
        else
          match float? s with
          | some x => some (float x)
          | none => some (str s)

/-- The value of a scalar that nothing is said of; one in quotes or after a mark is a text. -/
def ofText? (text : String) (plain : Bool) : Option Value :=
  if plain then ofPlain? text else some (str text)

/-- The value of a scalar, by its tag or by its text. -/
def ofScalar? (tag : Option Tag) (text : String) (plain : Bool) : Option Value :=
  match tag with
  | none => ofText? text plain
  | some .nameless => ofText? text plain
  | some (.own name) => (ofText? text plain).map (tagged name)
  | some .bool => (bool? text).map bool
  | some .int =>
    match WholeNumber.ofText text.toList with
    | .fits n => some (int n)
    | _ => none
  | some .float => (float? text).map float
  | some .null => if nullWords.contains text then some null else none
  | some .other => some (str text)

/-- The value with its tag, if it is a tag of one's own. -/
def withTag (tag : Option Tag) (v : Value) : Value :=
  match tag with
  | some (.own name) => tagged name v
  | _ => v

/-- The name of the member that a tag makes of its value. -/
def tagName (tag : String) : String :=
  if tag = "!" then "!!"
  else if Text.startsWith "!" tag then tag
  else "!" ++ tag

/-! ## Equal keys -/

/-- Whether two doubles count as the same key: equal numbers, or both no number. -/
def sameFloat (x y : Binary64) : Bool :=
  x == y || (x.isZero && y.isZero)
    || (Binary64.infinityPattern < x.pattern && Binary64.infinityPattern < y.pattern)

mutual

/-- Whether two values count as the same key. Tables are the same in any order. -/
def same : Value → Value → Bool
  | null, null => true
  | bool a, bool b => a == b
  | int m, int n => m == n
  | float x, float y => sameFloat x y
  | str s, str t => s == t
  | list xs, list ys => sameItems xs ys
  | table es, table fs => es.length == fs.length && sameEntries es fs
  | tagged t v, tagged u w => tagName t == tagName u && same v w
  | _, _ => false

def sameItems : List Value → List Value → Bool
  | [], [] => true
  | x :: xs, y :: ys => same x y && sameItems xs ys
  | _, _ => false

/-- Whether each entry stands in the second table too. -/
def sameEntries : List (Value × Value) → List (Value × Value) → Bool
  | [], _ => true
  | (k, v) :: rest, fs => fs.any (fun f => same k f.1 && same v f.2) && sameEntries rest fs

end

/-! ## From nodes -/

/-- Where the nodes of anchors are, and how many aliases may be followed. -/
structure Aliases where
  /-- The nodes with anchors, in the order in which they start. -/
  anchored : List (Nat × Node Nat)
  limit : Nat

/-- The node of a number. -/
def Aliases.node? (aliases : Aliases) (n : Nat) : Option (Node Nat) :=
  (aliases.anchored.reverse.find? fun e => e.1 = n).map (·.2)

/-- The node that an alias stands for, and one more to the number of aliases followed. -/
def Aliases.follow? (aliases : Aliases) (used : Nat) : Node Nat → Option (Node Nat × Nat)
  | .alias n =>
    if used < aliases.limit then (aliases.node? n).map fun x => (x, used + 1) else none
  | x => some (x, used)

/-- Reads the items of a list one after the other, counting the aliases followed. -/
def readItems? (read : Node Nat → Nat → Option (Value × Nat)) :
    List (Node Nat) → Nat → Option (List Value × Nat)
  | [], used => some ([], used)
  | x :: xs, used => do
    let (v, used) ← read x used
    let (vs, used) ← readItems? read xs used
    return (v :: vs, used)

/-- Reads the entries of a table one after the other, after the keys before them. -/
def readEntries? (read : Node Nat → Nat → Option (Value × Nat)) :
    List Value → List (Node Nat × Node Nat) → Nat → Option (List (Value × Value) × Nat)
  | _, [], used => some ([], used)
  | keys, (k, v) :: rest, used => do
    let (k, used) ← read k used
    if keys.any (same k) then none
    else
      let (v, used) ← read v used
      let (es, used) ← readEntries? read (k :: keys) rest used
      return ((k, v) :: es, used)

/-- The value of a node with lists and tables at most `depth` deep in one another, after some
aliases have been followed, and the number of aliases followed after it. -/
def ofNode? (aliases : Aliases) : Nat → Node Nat → Nat → Option (Value × Nat)
  | 0, x, used => do
    let (x, used) ← aliases.follow? used x
    match x with
    | .scalar p text plain => (ofScalar? p.tag text plain).map (·, used)
    | _ => none
  | depth + 1, x, used => do
    let (x, used) ← aliases.follow? used x
    match x with
    | .scalar p text plain => (ofScalar? p.tag text plain).map (·, used)
    | .list p items => do
      let (vs, used) ← readItems? (ofNode? aliases depth) items used
      return (withTag p.tag (list vs), used)
    | .table p entries => do
      let (es, used) ← readEntries? (ofNode? aliases depth) [] entries used
      return (withTag p.tag (table es), used)
    | .alias _ => none

/-! ## To JSON -/

/-- The name of a member under a key; lists, tables, tags and null are no names. -/
def name? : Value → Option String
  | bool b => some (if b then "true" else "false")
  | int n => some (decimalText n)
  | float x => if x.isFinite then some x.text else none
  | str s => some s
  | _ => none

mutual

/-- The value in JSON; a double that JSON has no text for is null. Of equal names the last
counts. -/
def toJson? : Value → Option Json
  | null => some .null
  | bool b => some (.bool b)
  | int n => some (.num (.int n))
  | float x => some (if x.isFinite then .num (.float x) else .null)
  | str s => some (.str s)
  | list vs => (toItems? vs).map .arr
  | table es => (toMembers? es).map fun ms => .obj (Entries.sort ms)
  | tagged tag v => (toJson? v).map fun j => .obj [(tagName tag, j)]

def toItems? : List Value → Option (List Json)
  | [] => some []
  | v :: vs => do
    let j ← toJson? v
    let js ← toItems? vs
    return j :: js

def toMembers? : List (Value × Value) → Option (List (String × Json))
  | [] => some []
  | (k, v) :: rest => do
    let name ← k.name?
    let j ← toJson? v
    let ms ← toMembers? rest
    return (name, j) :: ms

end

end Value

end ApiFolio.Yaml
