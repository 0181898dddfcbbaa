/-!
Decoding of bytes that are meant to be UTF-8 but may not be.

Every ill-formed stretch is replaced by U+FFFD: a lead byte together with the
continuation bytes that still fit it counts as one stretch, and so does every
byte that can start nothing.
-/

namespace ModelFinder.Text

/-- What a lead byte of a longer sequence asks for: the number of bytes in the
sequence and the range of its second byte. Overlong forms, surrogates and values
beyond U+10FFFF are excluded by the range of the second byte. -/
def leadByte? (byte : Nat) : Option (Nat × Nat × Nat) :=
  if 0xc2 ≤ byte && byte ≤ 0xdf then some (2, 0x80, 0xbf)
  else if byte == 0xe0 then some (3, 0xa0, 0xbf)
  else if byte == 0xed then some (3, 0x80, 0x9f)
  else if 0xe1 ≤ byte && byte ≤ 0xef then some (3, 0x80, 0xbf)
  else if byte == 0xf0 then some (4, 0x90, 0xbf)
  else if 0xf1 ≤ byte && byte ≤ 0xf3 then some (4, 0x80, 0xbf)
  else if byte == 0xf4 then some (4, 0x80, 0x8f)
  else none

def isContinuation (byte : Nat) : Bool := 0x80 ≤ byte && byte ≤ 0xbf

def replacement : Char := '\ufffd'

def decodeLossy : List Nat → List Char
  | [] => []
  | first :: rest =>
    if first < 0x80 then Char.ofNat first :: decodeLossy rest
    else
      match leadByte? first with
      | none => replacement :: decodeLossy rest
      | some (length, low, high) =>
        match rest with
        | [] => [replacement]
        | second :: afterSecond =>
          if second < low || high < second then replacement :: decodeLossy (second :: afterSecond)
          else if length == 2 then
            Char.ofNat (first % 0x20 * 0x40 + second % 0x40) :: decodeLossy afterSecond
          else
            match afterSecond with
            | [] => [replacement]
            | third :: afterThird =>
              if !isContinuation third then replacement :: decodeLossy (third :: afterThird)
              else if length == 3 then
                Char.ofNat (first % 0x10 * 0x1000 + second % 0x40 * 0x40 + third % 0x40)
                  :: decodeLossy afterThird
              else
                match afterThird with
                | [] => [replacement]
                | fourth :: afterFourth =>
                  if !isContinuation fourth then replacement :: decodeLossy (fourth :: afterFourth)
                  else
                    Char.ofNat (first % 8 * 0x40000 + second % 0x40 * 0x1000
                        + third % 0x40 * 0x40 + fourth % 0x40)
                      :: decodeLossy afterFourth

example : decodeLossy [0x41, 0xc3, 0xa9] = ['A', 'é'] := by decide

/-- A truncated sequence is one stretch; a stray byte is one by itself. -/
example : decodeLossy [0xe2, 0x82, 0x41, 0xff] = [replacement, 'A', replacement] := by decide

end ModelFinder.Text
