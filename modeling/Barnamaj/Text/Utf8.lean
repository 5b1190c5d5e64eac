import Barnamaj.Text.Quoted

/-!
# UTF-8 text

Bytes are read as UTF-8 one at a time. A lead byte says how many bytes follow and which values the
next one may have; this keeps out overlong forms, surrogates and code points that are too large.
The first byte that does not fit ends the reading with a fault, which names the bytes of the
character that was being read.
-/

namespace Barnamaj.Text

/-- Why bytes are no UTF-8. -/
inductive Utf8Reason where
  | invalidStart
  | invalidContinuation
  | unexpectedEnd
deriving DecidableEq

/-- The words for a reason. -/
def Utf8Reason.text : Utf8Reason → String
  | .invalidStart => "invalid start byte"
  | .invalidContinuation => "invalid continuation byte"
  | .unexpectedEnd => "unexpected end of data"

/-- The bytes that are no UTF-8: the first one, its offset, the offset of the last one and the
reason. -/
structure Utf8Fault where
  lead : UInt8
  first : Nat
  last : Nat
  reason : Utf8Reason
deriving DecidableEq

/-- The text of a fault. A single byte is shown, several are only counted off. -/
def Utf8Fault.text (f : Utf8Fault) : String :=
  let place :=
    if f.first = f.last then
      "byte 0x" ++ String.ofList (hexadecimal 2 f.lead.toNat) ++ " in position " ++
        toString f.first
    else "bytes in position " ++ toString f.first ++ "-" ++ toString f.last
  "'utf-8' codec can't decode " ++ place ++ ": " ++ f.reason.text

/-- A character of several bytes of which some have been read: the first byte and its offset, the
value so far, how many bytes are missing, and the least and the greatest value of the next one. -/
structure PartialChar where
  lead : UInt8
  first : Nat
  value : Nat
  missing : Nat
  low : Nat := 0x80
  high : Nat := 0xBF

/-- What a lead byte of a longer character announces. -/
def PartialChar.ofLead? (b : UInt8) (offset : Nat) : Option PartialChar :=
  let n := b.toNat
  if n < 0xC2 then none
  else if n < 0xE0 then some { lead := b, first := offset, value := n % 32, missing := 1 }
  else if n = 0xE0 then
    some { lead := b, first := offset, value := n % 16, missing := 2, low := 0xA0 }
  else if n = 0xED then
    some { lead := b, first := offset, value := n % 16, missing := 2, high := 0x9F }
  else if n < 0xF0 then some { lead := b, first := offset, value := n % 16, missing := 2 }
  else if n = 0xF0 then
    some { lead := b, first := offset, value := n % 8, missing := 3, low := 0x90 }
  else if n < 0xF4 then some { lead := b, first := offset, value := n % 8, missing := 3 }
  else if n = 0xF4 then
    some { lead := b, first := offset, value := n % 8, missing := 3, high := 0x8F }
  else none

/-- Read bytes from an offset on, given the character that is being read, if one is. -/
def decodeFrom (offset : Nat) (pending : Option PartialChar) :
    List UInt8 → Except Utf8Fault (List Char)
  | [] =>
    match pending with
    | none => .ok []
    | some c => .error ⟨c.lead, c.first, offset - 1, .unexpectedEnd⟩
  | b :: rest =>
    match pending with
    | none =>
      if b.toNat < 0x80 then
        (decodeFrom (offset + 1) none rest).map (Char.ofNat b.toNat :: ·)
      else
        match PartialChar.ofLead? b offset with
        | none => .error ⟨b, offset, offset, .invalidStart⟩
        | some c => decodeFrom (offset + 1) (some c) rest
    | some c =>
      if c.low ≤ b.toNat ∧ b.toNat ≤ c.high then
        let value := 64 * c.value + b.toNat % 64
        if c.missing ≤ 1 then
          (decodeFrom (offset + 1) none rest).map (Char.ofNat value :: ·)
        else
          decodeFrom (offset + 1)
            (some { lead := c.lead, first := c.first, value, missing := c.missing - 1 }) rest
      else .error ⟨c.lead, c.first, offset - 1, .invalidContinuation⟩

/-- The characters that bytes stand for, or the first fault. -/
def decodeUtf8 (bytes : List UInt8) : Except Utf8Fault (List Char) :=
  decodeFrom 0 none bytes

/-- End every line with a line feed alone, also where a carriage return, with or without a line
feed behind it, ends it. -/
def unifyLineEnds : List Char → List Char
  | [] => []
  | '\r' :: '\n' :: rest => '\n' :: unifyLineEnds rest
  | '\r' :: rest => '\n' :: unifyLineEnds rest
  | c :: rest => c :: unifyLineEnds rest

end Barnamaj.Text
