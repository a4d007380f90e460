import ApiFolio.Text.Basic
import ApiFolio.Text.Hidden

/-!
# Hosts

Whether a text is the host of an address. A host in square brackets is an address of the sixth
version of the protocol. In the hosts of the web, percent escapes are resolved first, and variants
of a character count as the character itself; one whose last label is a number is an address of the
fourth version.
-/

namespace ApiFolio.Text.Host

/-- The characters that no host may hold. -/
def isForbidden (c : Char) : Bool :=
  c.toNat == 0 || c == '\t' || c == '\n' || c == '\r'
    || [' ', '#', '/', ':', '<', '>', '?', '@', '[', '\\', ']', '^', '|'].contains c

/-! ## Hosts of numbers -/

/-- The value of digits in a base, if they all are digits of it. -/
def value? (base : Nat) (ds : List Char) : Option Nat :=
  ds.foldlM (fun n d => do
    let v ← hexValue? d
    if v < base then some (base * n + v) else none) 0

/-- A part of an address in numbers: hexadecimal after `0x`, octal after `0`, else decimal. -/
def number? : List Char → Option Nat
  | [] => none
  | '0' :: 'x' :: ds => value? 16 ds
  | '0' :: 'X' :: ds => value? 16 ds
  | '0' :: d :: ds => value? 8 (d :: ds)
  | ds => value? 10 ds

/-- The labels of a host without an empty last one. -/
def labels (host : List Char) : List (List Char) :=
  let parts := splitChars '.' host
  if parts.getLast? = some [] then parts.dropLast else parts

/-- Whether the last label of a host is a number. -/
def endsInNumber (host : List Char) : Bool :=
  match (labels host).getLast? with
  | none => false
  | some last => (!last.isEmpty && last.all isDigit) || (number? last).isSome

/-- Whether a host is an address of numbers: at most four, all but the last below 256, the last
filling the bytes that are left. -/
def isAddress4 (host : List Char) : Bool :=
  let parts := labels host
  match parts.mapM number? with
  | none => false
  | some ns =>
    ns.length ≤ 4 && ns.dropLast.all (· < 256)
      && (ns.getLast?.getD 0) < Nat.pow 256 (5 - ns.length)

/-- Whether a part of an address of the sixth version is a group of one to four digits. -/
def isGroup (cs : List Char) : Bool :=
  !cs.isEmpty && cs.length ≤ 4 && cs.all fun c => (hexValue? c).isSome

/-- Whether a part is a decimal number below 256 without a leading zero. -/
def isByte (cs : List Char) : Bool :=
  !cs.isEmpty && cs.all isDigit && decimalValue cs < 256 && (cs.length == 1 || cs.head? != some '0')

/-- The number of groups that parts between colons stand for; the last may be four bytes. -/
def groups? (parts : List (List Char)) : Option Nat :=
  match parts.reverse with
  | [] => some 0
  | last :: before =>
    if before.all isGroup then
      if isGroup last then some parts.length
      else
        let bytes := splitChars '.' last
        if bytes.length = 4 ∧ bytes.all isByte then some (parts.length + 1) else none
    else none

/-- The parts between colons; an empty text has none. -/
def colonParts (cs : List Char) : List (List Char) :=
  if cs.isEmpty then [] else splitChars ':' cs

/-- The text before and after the first two colons that stand together. -/
def splitGap : List Char → Option (List Char × List Char)
  | ':' :: ':' :: rest => some ([], rest)
  | c :: cs => (splitGap cs).map fun (a, b) => (c :: a, b)
  | [] => none

/-- Whether a text is an address of the sixth version. -/
def isAddress6 (cs : List Char) : Bool :=
  match splitGap cs with
  | some (a, b) =>
    match groups? (colonParts a), groups? (colonParts b) with
    | some m, some n => m + n ≤ 7 && (colonParts a).all isGroup
    | _, _ => false
  | none => groups? (colonParts cs) == some 8

/-! ## Hosts of names -/

/-- The bytes of a text with its percent escapes resolved; one that is no escape stays. -/
def resolvedBytes : List Char → List UInt8
  | '%' :: a :: b :: rest =>
    match hexValue? a, hexValue? b with
    | some m, some n => UInt8.ofNat (16 * m + n) :: resolvedBytes rest
    | _, _ => 0x25 :: resolvedBytes (a :: b :: rest)
  | c :: cs => String.utf8EncodeChar c ++ resolvedBytes cs
  | [] => []

/-- The text with its percent escapes resolved, if they spell characters. -/
def resolve? (cs : List Char) : Option (List Char) :=
  (String.fromUTF8? (ByteArray.mk (resolvedBytes cs).toArray)).map String.toList

/-- The characters that a host is read without: joiners of words, choices between forms of a
character and the hyphen that does not show. -/
def passedOver : Ranges :=
  [(0xad, 0xad), (0x34f, 0x34f), (0x180b, 0x180d), (0x180f, 0x180f), (0x200b, 0x200b),
   (0x2060, 0x2060), (0x2064, 0x2064), (0xfe00, 0xfe0f), (0xfeff, 0xfeff), (0xe0100, 0xe01ef)]

/-- The characters that stand for a text with a character in it that no host may hold, most often a
space before a mark, and the one that stands for what cannot be read. -/
def unreadable : Ranges :=
  [(0xa8, 0xa8), (0xaf, 0xaf), (0xb4, 0xb4), (0xb8, 0xb8), (0x2d8, 0x2dd), (0x37a, 0x37a),
   (0x384, 0x385), (0x1fbd, 0x1fbd), (0x1fbf, 0x1fc1), (0x1fcd, 0x1fcf), (0x1fdd, 0x1fdf),
   (0x1fed, 0x1fee), (0x1ffd, 0x1ffe), (0x2017, 0x2017), (0x203e, 0x203e), (0x2047, 0x2049),
   (0x2100, 0x2101), (0x2105, 0x2106), (0x2a74, 0x2a74), (0x309b, 0x309c), (0xfc5e, 0xfc63),
   (0xfdfa, 0xfdfb), (0xfe13, 0xfe13), (0xfe16, 0xfe16), (0xfe47, 0xfe4c), (0xfe55, 0xfe56),
   (0xfe5f, 0xfe5f), (0xfe64, 0xfe65), (0xfe68, 0xfe68), (0xfe6a, 0xfe6b), (0xfe70, 0xfe70),
   (0xfe72, 0xfe72), (0xfe74, 0xfe74), (0xfe76, 0xfe76), (0xfe78, 0xfe78), (0xfe7a, 0xfe7a),
   (0xfe7c, 0xfe7c), (0xfe7e, 0xfe7e), (0xffe3, 0xffe3), (0xfffd, 0xfffd)]

/-- The character that one counts as: the forms of full width count as those of ASCII, the stops of
ideographic scripts as the point. -/
def counterpart (c : Char) : Char :=
  let n := c.toNat
  if 0xff01 ≤ n ∧ n ≤ 0xff5e then Char.ofNat (n - 0xfee0)
  else if n = 0x3002 ∨ n = 0xff61 then '.'
  else c

/-- What the characters of a host count as. -/
def plainName (cs : List Char) : List Char :=
  (cs.filter fun c => !passedOver.has c.toNat).map counterpart

/-- Whether the name of a host may hold a character. -/
def isNamePart (c : Char) : Bool :=
  !isForbidden c && c != '%' && !isFormless c && !unreadable.has c.toNat

/-- Whether a label may start so: no mark can attach to what is before it. -/
def isLabelStart (label : List Char) : Bool := !label.head?.any isAttached

/-- Whether a text is a host in square brackets, if it starts with one. -/
def isBracketed (host : List Char) : Bool :=
  host.getLast? == some ']' && isAddress6 host.tail.dropLast

/-- Whether a text is the host of a known scheme. -/
def isOfWeb (host : List Char) : Bool :=
  if host.head? = some '[' then isBracketed host
  else
    match resolve? host with
    | none => false
    | some cs =>
      let name := plainName cs
      !name.isEmpty && name.all isNamePart && (splitChars '.' name).all isLabelStart
        && (!endsInNumber name || isAddress4 name)

/-- Whether a text is the host of another scheme. -/
def isOpaque (host : List Char) : Bool :=
  if host.head? = some '[' then isBracketed host else host.all fun c => !isForbidden c

end ApiFolio.Text.Host
