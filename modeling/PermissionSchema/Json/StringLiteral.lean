import PermissionSchema.Json.Reader
import PermissionSchema.Text.Utf8
/-!
String literals: reading what stands between quotes, and passing over it. A literal that is passed
over need not make sense as text: neither surrogates nor the octets outside escapes are looked at.
-/
namespace PermissionSchema.Json.Reader

open PermissionSchema.Text

/-- Reads four hexadecimal digits. If fewer than four octets are left, all of them are taken. -/
def fourHex : Reader Nat
  | a :: b :: c :: d :: rest =>
    match Octet.hexValue? a, Octet.hexValue? b, Octet.hexValue? c, Octet.hexValue? d with
    | some a, some b, some c, some d => .ok (((a * 16 + b) * 16 + c) * 16 + d, rest)
    | _, _, _, _ => failHere .badEscape rest
  | _ => failHere .endInString []

def surrogateMark (mark : UInt8) : Reader Unit
  | [] => failHere .endInString []
  | octet :: rest =>
    if octet = mark then .ok ((), rest) else failHere .unfinishedSurrogate rest

/-- Reads the code after `\u`. A leading surrogate goes with the trailing one that has to follow in
an escape of its own; no surrogate stands alone. -/
def unicodeEscape : Reader Char := do
  let first ← fourHex
  if 0xdc00 ≤ first ∧ first ≤ 0xdfff then failHere .loneSurrogate
  else if 0xd800 ≤ first ∧ first ≤ 0xdbff then
    surrogateMark Octet.backslash
    surrogateMark Octet.letterU
    let second ← fourHex
    if 0xdc00 ≤ second ∧ second ≤ 0xdfff then
      pure (Char.ofNat (0x10000 + (first - 0xd800) * 0x400 + (second - 0xdc00)))
    else failHere .loneSurrogate
  else pure (Char.ofNat first)

def escapedOctet? (letter : UInt8) : Option UInt8 :=
  if letter = 0x22 then some 0x22
  else if letter = 0x5c then some 0x5c
  else if letter = 0x2f then some 0x2f
  else if letter = 0x62 then some 0x08
  else if letter = 0x66 then some 0x0c
  else if letter = 0x6e then some 0x0a
  else if letter = 0x72 then some 0x0d
  else if letter = 0x74 then some 0x09
  else none

def escape : Reader (List UInt8)
  | [] => failHere .endInString []
  | letter :: rest =>
    match escapedOctet? letter with
    | some octet => .ok ([octet], rest)
    | none =>
      if letter = Octet.letterU then (String.utf8EncodeChar <$> unicodeEscape) rest
      else failHere .badEscape rest

/-- Reads the octets of a string up to its closing quote, for at most `bound` of them; a bound of
all octets that are left is reached only at the end of the text. -/
def stringOctets : Nat → Reader (List UInt8)
  | 0, _ => failHere .endInString []
  | _ + 1, [] => failHere .endInString []
  | bound + 1, octet :: rest =>
    if octet = Octet.quote then .ok ([], rest)
    else if octet = Octet.backslash then
      (do
        let octets ← escape
        let more ← stringOctets bound
        pure (octets ++ more) : Reader _) rest
    else if octet < 0x20 then failHere .controlCharacter rest
    else (do
        let more ← stringOctets bound
        pure (octet :: more) : Reader _) rest

/-- Reads a string whose opening quote has been passed. What is not UTF-8 is shown at its first
malformed octet, as far as that can be told without the escapes before it. -/
def stringBody : Reader String := fun input =>
  match stringOctets (input.length + 1) input with
  | .error failure => .error failure
  | .ok (octets, rest) =>
    match Utf8.decode? octets with
    | some text => .ok (String.ofList text, rest)
    | none =>
      let back := octets.length - Utf8.soundLength (Utf8.pieces octets)
      .error ⟨.notUnicode, some ⟨rest.length, back⟩, rest⟩

def skipEscape : Reader Unit
  | [] => failHere .endInString []
  | letter :: rest =>
    match escapedOctet? letter with
    | some _ => .ok ((), rest)
    | none =>
      if letter = Octet.letterU then (do let _ ← fourHex : Reader Unit) rest
      else failHere .badEscape rest

def skipOctets : Nat → Reader Unit
  | 0, _ => failHere .endInString []
  | _ + 1, [] => failHere .endInString []
  | bound + 1, octet :: rest =>
    if octet = Octet.quote then .ok ((), rest)
    else if octet = Octet.backslash then
      (do
        skipEscape
        skipOctets bound : Reader Unit) rest
    else if octet < 0x20 then failHere .controlCharacter (octet :: rest)
    else skipOctets bound rest

def skipStringBody : Reader Unit := fun input =>
  skipOctets (input.length + 1) input

end PermissionSchema.Json.Reader
