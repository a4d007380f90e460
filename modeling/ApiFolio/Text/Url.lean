import ApiFolio.Text.Host

/-!
# Addresses

Whether a text is an absolute address: a scheme, a host and a number after a colon, of the known
form. The known schemes of the web need a host. Spaces around the text and line breaks in it are
ignored.
-/

namespace ApiFolio.Text.Url

/-- The schemes that need a host. -/
def webSchemes : List String := ["http", "https", "ws", "wss", "ftp"]

/-- The characters that end the host of an address and the number after it. -/
def endsAuthority (special : Bool) (c : Char) : Bool :=
  c == '/' || c == '?' || c == '#' || (special && c == '\\')

/-- The scheme of an address in small letters, and what follows its colon. -/
def scheme? : List Char → Option (String × List Char)
  | [] => none
  | c :: cs =>
    let isPart (c : Char) : Bool := c.isAlphanum || c == '+' || c == '-' || c == '.'
    if c.isAlpha then
      match cs.dropWhile isPart with
      | ':' :: rest => some (lowerAscii (String.ofList (c :: cs.takeWhile isPart)), rest)
      | _ => none
    else none

/-- Host and rest, at the first colon that is not in square brackets. -/
def splitHost (bracketed : Bool) : List Char → List Char × List Char
  | [] => ([], [])
  | c :: cs =>
    if c = ':' ∧ !bracketed then ([], c :: cs)
    else
      let inside := if c = '[' then true else if c = ']' then false else bracketed
      let (host, rest) := splitHost inside cs
      (c :: host, rest)

/-- Whether what follows a host is nothing, or a colon and a number of sixteen bits, if any; a
backslash ends the number. -/
def isHostEnd : List Char → Bool
  | [] => true
  | ':' :: cs =>
    let ds := cs.takeWhile isDigit
    decimalValue ds ≤ 65535 && (cs.drop ds.length).head?.all (· == '\\')
  | _ => false

/-- Whether a text is a host with what may follow it, with a user before it or none. Only other
schemes than those of the web may be without a host, and then without a user and a number too. A
mark of a user that is left out does not count where the text is not `followed` by a place. -/
def isAuthority (special followed : Bool) (authority : List Char) : Bool :=
  let (host, rest) := splitHost false (authority.reverse.takeWhile (· != '@')).reverse
  if host.isEmpty then
    let user := authority.dropLast
    !special && rest.isEmpty
      && (authority.isEmpty || (user.isEmpty && !followed) || user == [':'])
  else (if special then Host.isOfWeb host else Host.isOpaque host) && isHostEnd rest

/-- Whether what follows the slashes of a scheme is an authority and a place, if any. -/
def startsWithAuthority (special : Bool) (cs : List Char) : Bool :=
  let authority := cs.takeWhile fun c => !endsAuthority special c
  isAuthority special (authority.length < cs.length) authority

/-- Whether what follows the scheme of a file is a place: its host, if it has one, is one. -/
def isFilePlace (rest : List Char) : Bool :=
  match rest with
  | a :: b :: cs =>
    if (a == '/' || a == '\\') && (b == '/' || b == '\\') then
      let host := cs.takeWhile fun c => !endsAuthority true c
      let isDrive := host.length == 2 && (host.head?.any Char.isAlpha)
        && (host.getLast? == some ':' || host.getLast? == some '|')
      host.isEmpty || isDrive || Host.isOfWeb host
    else true
  | _ => true

def isAbsolute (s : String) : Bool :=
  let isEdge (c : Char) : Bool := c.toNat ≤ 0x20
  let trimmed := ((s.toList.dropWhile isEdge).reverse.dropWhile isEdge).reverse
  let cs := trimmed.filter fun c => c != '\t' && c != '\n' && c != '\r'
  match scheme? cs with
  | none => false
  | some (scheme, rest) =>
    if webSchemes.contains scheme then
      startsWithAuthority true (rest.dropWhile fun c => c == '/' || c == '\\')
    else if scheme == "file" then isFilePlace rest
    else
      match rest with
      | '/' :: '/' :: cs => startsWithAuthority false cs
      | _ => true

end ApiFolio.Text.Url
