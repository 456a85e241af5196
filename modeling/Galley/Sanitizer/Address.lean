import Galley.Text.Blank
import Galley.Text.Bytes
import Galley.Text.Case
import Galley.Text.Reference

/-!
# Addresses

Whether an address may stand in a page: it has no scheme, or one of a list and no fault in its host.

* `scheme?` — the scheme of an address;
* `isHost` — whether the host of an address is without faults;
* `isSafeAddress` — the check.
-/

namespace Galley.Sanitizer

/-- The schemes that an address may have. -/
def safeSchemes : List String :=
  ["bitcoin", "ftp", "ftps", "geo", "http", "https", "im", "irc", "ircs", "magnet", "mailto", "mms", "mx",
   "news", "nntp", "openpgp4fpr", "sip", "sms", "smsto", "ssh", "tel", "url", "webcal", "wtai", "xmpp"]

/-- Schemes whose addresses always have a host. -/
def hostSchemes : List String := ["ftp", "http", "https"]

/-- Whether a character is a space or a control character. -/
def isControlOrSpace (c : Char) : Bool := c.toNat ≤ 32

/-- An address without the spaces and control characters at its ends, and without tabs and line breaks. -/
def cleanAddress (cs : List Char) : List Char :=
  (Text.dropEndWhile isControlOrSpace (cs.dropWhile isControlOrSpace)).filter fun c =>
    !(c == '\t' || c == '\n' || c == '\r')

/-- Whether a character can stand in a scheme. -/
def isSchemeChar (c : Char) : Bool := c.isAlphanum || c == '+' || c == '-' || c == '.'

/-- The scheme of an address in lower case, and what follows its colon. -/
def scheme? (cs : List Char) : Option (String × List Char) :=
  let scheme := cs.takeWhile isSchemeChar
  match cs.drop scheme.length with
  | ':' :: rest =>
    if scheme.head?.any Char.isAlpha then some (.ofList (Text.lowerAscii scheme), rest) else none
  | _ => none

/-- Whether a character separates parts of a path. -/
def isSlash (c : Char) : Bool := c == '/' || c == '\\'

/-- The characters of a text with its percent signs and two digits replaced by what they stand for. Only
ASCII is replaced. -/
def percentDecode : List Char → List Char
  | '%' :: a :: b :: rest =>
    match Text.hexValue? a, Text.hexValue? b with
    | some x, some y =>
      (if 16 * x + y < 128 then [Char.ofNat (16 * x + y)] else ['\u00e9']) ++ percentDecode rest
    | _, _ => '%' :: percentDecode (a :: b :: rest)
  | c :: rest => c :: percentDecode rest
  | [] => []

/-- Whether a character cannot stand in the name of a host. -/
def isForbiddenHostChar (c : Char) : Bool :=
  c.toNat ≤ 32 || c.toNat == 127 || "#/:<>?@[\\]^|%".toList.contains c

/-- The number that a part of a numeric host is: decimal, octal after a zero, or hexadecimal after `0x`. -/
def hostNumber? (part : List Char) : Option Nat :=
  match part with
  | [] => none
  | '0' :: 'x' :: digits => hexadecimal? digits
  | '0' :: 'X' :: digits => hexadecimal? digits
  | '0' :: digits =>
    if digits.all fun c => '0' ≤ c && c ≤ '7' then
      some (digits.foldl (fun n c => 8 * n + (c.toNat - 48)) 0)
    else none
  | digits => if digits.all Char.isDigit then some (Text.decimalNumber digits) else none
where
  /-- The number that hexadecimal digits write. -/
  hexadecimal? (digits : List Char) : Option Nat :=
    if digits.all fun c => (Text.hexValue? c).isSome then some (Text.hexNumber digits) else none

/-- The parts of a host between its points. A point at the end separates nothing. -/
def hostParts (host : List Char) : List (List Char) :=
  let parts := host.splitOn '.'
  if 1 < parts.length && parts.getLast? == some [] then parts.dropLast else parts

/-- Whether a host is meant as a number. -/
def endsInNumber (host : List Char) : Bool :=
  match (hostParts host).getLast? with
  | none => false
  | some part => !part.isEmpty && (part.all Char.isDigit || (hostNumber? part).isSome)

/-- Whether a host that is meant as a number is one: at most four numbers, each but the last below 256,
and the last within what is left. -/
def isNumericHost (host : List Char) : Bool :=
  let parts := hostParts host
  let numbers := parts.filterMap hostNumber?
  numbers.length == parts.length && parts.length ≤ 4 && numbers.dropLast.all (· < 256) &&
    match numbers.getLast? with
    | some last => last < Nat.pow 256 (5 - numbers.length)
    | none => false

/-- Whether a text is a host in brackets without the brackets: eight groups of hexadecimal digits between
colons, or fewer with two colons once; the last two groups can be written as four decimal numbers. -/
def isBracketHost (host : List Char) : Bool :=
  let groups := host.splitOn ':'
  let isGroup (group : List Char) : Bool :=
    1 ≤ group.length && group.length ≤ 4 && group.all fun c => (Text.hexValue? c).isSome
  let isDecimal (part : List Char) : Bool :=
    1 ≤ part.length && part.length ≤ 3 && part.all Char.isDigit && Text.decimalNumber part < 256 &&
      (part.length == 1 || part.head? != some '0')
  let width (group : List Char) : Option Nat :=
    if isGroup group then some 1
    else if (group.splitOn '.').length == 4 && (group.splitOn '.').all isDecimal then some 2
    else none
  let isRun (groups : List (List Char)) (isLast : Bool) : Option Nat :=
    let widths := groups.map width
    let inner := if isLast then widths.dropLast else widths
    if widths.all Option.isSome && inner.all (· == some 1) then some ((widths.filterMap id).foldl (· + ·) 0)
    else none
  if groups.length < 3 then false
  else
    match host.findIdx? (· == ':') with
    | none => false
    | some _ =>
      let emptyAt := groups.findIdx? List.isEmpty
      match emptyAt with
      | none => isRun groups true == some 8
      | some _ =>
        let before := groups.takeWhile fun g => !g.isEmpty
        let rest := groups.drop before.length
        let gap := rest.takeWhile List.isEmpty
        let after := rest.drop gap.length
        let isGap :=
          if before.isEmpty && after.isEmpty then gap.length == 3
          else if before.isEmpty || after.isEmpty then gap.length == 2
          else gap.length == 1
        isGap &&
          match isRun before false, isRun after true with
          | some a, some b => a + b ≤ 7
          | _, _ => false

/-- Whether the name of a host is without faults. -/
def isHost (host : List Char) : Bool :=
  match host with
  | [] => false
  | '[' :: rest =>
    match rest.reverse with
    | ']' :: inner => isBracketHost inner.reverse
    | _ => false
  | _ =>
    let name := percentDecode host
    !name.any isForbiddenHostChar && (!endsInNumber name || isNumericHost name)

/-- Whether the number of a service is one below 65536. It may be missing. -/
def isService (service : List Char) : Bool :=
  service.all Char.isDigit && Text.decimalNumber service < 65536

/-- A host and the number of a service after its last colon, brackets aside. -/
def splitService (authority : List Char) : List Char × List Char :=
  let inBrackets := if authority.head? == some '[' then
      (authority.takeWhile (· != ']')).length + 1 else 0
  let host := authority.take inBrackets ++ (authority.drop inBrackets).takeWhile (· != ':')
  (host, (authority.drop host.length).drop 1)

/-- What follows the last at sign of a text, or all of it. -/
def afterUser (authority : List Char) : List Char :=
  (authority.reverse.takeWhile (· != '@')).reverse

/-- Whether the host and the service after the slashes of an address are without faults. -/
def isAuthority (isEnd : Char → Bool) (cs : List Char) : Bool :=
  let authority := afterUser (cs.takeWhile fun c => !(isEnd c || c == '?' || c == '#'))
  let (host, service) := splitService authority
  isHost host && isService service

/-- Whether the host of an address that need not have one is without faults. -/
def isLooseAuthority (cs : List Char) : Bool :=
  let authority := afterUser (cs.takeWhile fun c => !(c == '/' || c == '?' || c == '#'))
  let (host, service) := splitService authority
  isService service &&
    match host with
    | '[' :: _ => isHost host
    | _ => !host.any fun c => c != '%' && isForbiddenHostChar c

/-- Whether an address may stand in a page. -/
def isSafeAddress (address : String) : Bool :=
  match scheme? (cleanAddress address.toList) with
  | none => true
  | some (scheme, rest) =>
    safeSchemes.contains scheme &&
      if hostSchemes.contains scheme then isAuthority isSlash (rest.dropWhile isSlash)
      else
        match rest with
        | '/' :: '/' :: authority => isLooseAuthority authority
        | _ => true

end Galley.Sanitizer
