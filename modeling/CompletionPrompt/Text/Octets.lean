/-!
# Text in octets

UTF-8 as a machine that takes one octet at a time. Between characters nothing is pending; inside
one, `Pending` holds how many octets are owed, which range the next must lie in, and the value
read so far. An octet outside the range ends the character that was begun, and is then taken as
a first octet itself; so each maximal part of a malformed sequence that could still have become a
character counts as one unreadable place.

* `decode`: the characters of an octet sequence, `none` at each unreadable place.
* `decode?`: the text of an octet sequence that is UTF-8 throughout.
* `decodeReplacing`: the text with a replacement character (U+FFFD) at each unreadable place.
-/

namespace CompletionPrompt
namespace Octets

/-- A character that was begun: octets owed, the range of the next one, the value so far. -/
structure Pending where
  owed : Nat
  low : Nat
  high : Nat
  value : Nat

/-- The characters that are complete after an octet, and what is pending after it. -/
abbrev Taken := List (Option Char) × Option Pending

/-- An octet taken between characters. -/
def takeFirst (b : Nat) : Taken :=
  if b < 0x80 then ([some (Char.ofNat b)], none)
  else if 0xC2 ≤ b ∧ b ≤ 0xDF then ([], some ⟨1, 0x80, 0xBF, b - 0xC0⟩)
  else if b = 0xE0 then ([], some ⟨2, 0xA0, 0xBF, 0⟩)
  else if b = 0xED then ([], some ⟨2, 0x80, 0x9F, 0xD⟩)
  else if 0xE1 ≤ b ∧ b ≤ 0xEF then ([], some ⟨2, 0x80, 0xBF, b - 0xE0⟩)
  else if b = 0xF0 then ([], some ⟨3, 0x90, 0xBF, 0⟩)
  else if 0xF1 ≤ b ∧ b ≤ 0xF3 then ([], some ⟨3, 0x80, 0xBF, b - 0xF0⟩)
  else if b = 0xF4 then ([], some ⟨3, 0x80, 0x8F, 4⟩)
  else ([none], none)

/-- An octet taken inside a character. -/
def takeNext (p : Pending) (b : Nat) : Taken :=
  if p.low ≤ b ∧ b ≤ p.high then
    let value := p.value * 64 + (b - 0x80)
    if p.owed ≤ 1 then ([some (Char.ofNat value)], none)
    else ([], some ⟨p.owed - 1, 0x80, 0xBF, value⟩)
  else
    let (out, pending) := takeFirst b
    (none :: out, pending)

/-- The rest of a decoding, from what is pending. -/
def decodeFrom : Option Pending → List UInt8 → List (Option Char)
  | none, [] => []
  | some _, [] => [none]
  | pending, b :: bs =>
    let (out, pending) :=
      match pending with
      | none => takeFirst b.toNat
      | some p => takeNext p b.toNat
    out ++ decodeFrom pending bs

/-- The characters of an octet sequence, `none` at each unreadable place. -/
def decode (bs : List UInt8) : List (Option Char) :=
  decodeFrom none bs

/-- The text of an octet sequence that is UTF-8 throughout. -/
def decode? (bs : List UInt8) : Option String :=
  ((decode bs).mapM id).map String.ofList

/-- The text of an octet sequence, with U+FFFD at each unreadable place. -/
def decodeReplacing (bs : List UInt8) : String :=
  String.ofList ((decode bs).map (·.getD '\uFFFD'))

/-- The octets of a text in UTF-8. -/
def encode (s : String) : List UInt8 :=
  s.toUTF8.toList

end Octets
end CompletionPrompt
