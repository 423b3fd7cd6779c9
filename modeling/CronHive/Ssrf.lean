import CronHive.Config
import CronHive.World

/-!
# The guard on callback URLs

`isIPv4` and `isIPv6` are the runtime's own tests on the text of an address: a dotted quad
without leading zeros, and eight 16-bit groups in hexadecimal, at most one `::` standing for
one or more groups of zero, the last two groups possibly dotted, and an optional zone.
-/

namespace CronHive

set_option autoImplicit false

namespace Net

def isDigit (c : Char) : Bool := '0' ≤ c && c ≤ '9'

def isHexDigit (c : Char) : Bool :=
  isDigit c || ('a' ≤ c && c ≤ 'f') || ('A' ≤ c && c ≤ 'F')

/-- `25[0-5]|2[0-4]\d|1\d\d|[1-9]\d|\d` -/
def v4Seg : List Char → Bool
  | [a] => isDigit a
  | [a, b] => '1' ≤ a && a ≤ '9' && isDigit b
  | [a, b, c] =>
      (a == '2' && b == '5' && '0' ≤ c && c ≤ '5') ||
      (a == '2' && '0' ≤ b && b ≤ '4' && isDigit c) ||
      (a == '1' && isDigit b && isDigit c)
  | _ => false

def v4Chars (cs : List Char) : Bool :=
  let segs := cs.splitOn '.'
  segs.length == 4 && segs.all v4Seg

def isIPv4 (ip : String) : Bool := v4Chars ip.toList

/-- `[0-9a-fA-F]{1,4}` -/
def v6Seg (cs : List Char) : Bool := 1 ≤ cs.length && cs.length ≤ 4 && cs.all isHexDigit

/-- The number of 16-bit groups a colon-separated list stands for, a final dotted quad
counting for two; `none` if some piece is neither. -/
def v6Groups : List (List Char) → Option Nat
  | [] => some 0
  | [cs] => if v6Seg cs then some 1 else if v4Chars cs then some 2 else none
  | cs :: rest => if v6Seg cs then (v6Groups rest).map (· + 1) else none

/-- The two sides of the first `::`. -/
def splitDoubleColon : List Char → Option (List Char × List Char)
  | ':' :: ':' :: rest => some ([], rest)
  | c :: rest => (splitDoubleColon rest).map fun p => (c :: p.1, p.2)
  | [] => none

def v6Pieces (cs : List Char) : List (List Char) := if cs = [] then [] else cs.splitOn ':'

def v6Chars (cs : List Char) : Bool :=
  match splitDoubleColon cs with
  | none => v6Groups (v6Pieces cs) == some 8
  | some (left, right) =>
      (v6Pieces left).all v6Seg &&
        match v6Groups (v6Pieces right) with
        | some n => (v6Pieces left).length + n ≤ 7
        | none => false

/-- `%[0-9a-zA-Z-.:]{1,}` -/
def isZoneChar (c : Char) : Bool :=
  isDigit c || ('a' ≤ c && c ≤ 'z') || ('A' ≤ c && c ≤ 'Z') || c == '-' || c == '.' || c == ':'

def isIPv6 (ip : String) : Bool :=
  let cs := ip.toList
  let zone := cs.dropWhile (· ≠ '%')
  v6Chars (cs.takeWhile (· ≠ '%')) &&
    (zone.isEmpty || (zone.tail.length ≥ 1 && zone.tail.all isZoneChar))

end Net

/-- `Number` of a decimal numeral; `none` for NaN. -/
def number? (cs : List Char) : Option Nat :=
  if cs.all Net.isDigit then
    some (cs.foldl (fun n c => 10 * n + (c.toNat - '0'.toNat)) 0)
  else none

def isPrivateIPv4 (ip : List Char) : Bool :=
  match (ip.splitOn '.').map number? with
  | [some a, some b, some _, some _] =>
      a == 10 || a == 127 || a == 0 || (a == 169 && b == 254) ||
        (a == 172 && 16 ≤ b && b ≤ 31) || (a == 192 && b == 168) ||
        (a == 100 && 64 ≤ b && b ≤ 127) || 224 ≤ a
  | _ => true

def isPrivateIPv6 (ip : List Char) : Bool :=
  let lower := ip.map Char.toLower
  if lower == "::1".toList || lower == "::".toList then true
  else if "fe80".toList.isPrefixOf lower then true
  else if "fc".toList.isPrefixOf lower || "fd".toList.isPrefixOf lower then true
  else if "::ffff:".toList.isPrefixOf lower then
    let v4 := (lower.splitOn ':').getLast?.getD []
    if Net.v4Chars v4 then isPrivateIPv4 v4 else false
  else false

def isPrivateAddress (ip : String) : Bool :=
  if Net.isIPv4 ip then isPrivateIPv4 ip.toList
  else if Net.isIPv6 ip then isPrivateIPv6 ip.toList
  else true

structure SsrfCheckResult where
  ok : Bool
  reason : Option String := none
  deriving DecidableEq, Repr

/-- The verdict on the addresses a host resolved to; `none` if it did not resolve. -/
def checkAddresses : Option (List String) → SsrfCheckResult
  | none => ⟨false, some "host did not resolve"⟩
  | some [] => ⟨false, some "host did not resolve"⟩
  | some addresses =>
      match addresses.find? isPrivateAddress with
      | some address => ⟨false, some s!"resolves to private address {address}"⟩
      | none => ⟨true, none⟩

/-- All the addresses must pass, and there must be one. -/
theorem checkAddresses_ok_iff {answer : Option (List String)} : (checkAddresses answer).ok = true ↔
    ∃ addresses, answer = some addresses ∧ addresses ≠ [] ∧
      ∀ a ∈ addresses, isPrivateAddress a = false := by
  rcases answer with _ | _ | ⟨address, addresses⟩
  · simp [checkAddresses]
  · simp [checkAddresses]
  · have hnone : (address :: addresses).find? isPrivateAddress = none ↔
        ∀ a ∈ address :: addresses, isPrivateAddress a = false := by simp
    simp only [checkAddresses, Option.some.injEq, exists_eq_left', ← hnone]
    cases (address :: addresses).find? isPrivateAddress with
    | none => simp
    | some a => simp

def assertSafeCallbackUrl (P : Platform) (rawUrl : String) (allowPrivate : Bool) :
    Promise SsrfCheckResult :=
  match P.parseUrl rawUrl with
  | none => pure ⟨false, some "invalid URL"⟩
  | some url =>
      if url.protocol ≠ "http:" ∧ url.protocol ≠ "https:" then
        pure ⟨false, some s!"unsupported scheme {url.protocol}"⟩
      else if allowPrivate then pure ⟨true, none⟩
      else do
        let addresses ←
          try
            let answer ← await (.dnsLookup url.hostname)
            pure (some answer)
          catch _ => pure none
        pure (checkAddresses addresses)

end CronHive
