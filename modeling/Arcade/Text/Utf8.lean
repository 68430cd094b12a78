/-! Text as bytes. A character takes one to four bytes; bytes that are no such sequence are
either refused or replaced. -/

namespace Arcade.Utf8

/-- The bytes of one character. -/
def encodeChar (c : Char) : List UInt8 :=
  let code := c.toNat
  if code < 0x80 then [UInt8.ofNat code]
  else if code < 0x800 then
    [UInt8.ofNat (0xc0 + code / 0x40), UInt8.ofNat (0x80 + code % 0x40)]
  else if code < 0x10000 then
    [UInt8.ofNat (0xe0 + code / 0x1000), UInt8.ofNat (0x80 + code / 0x40 % 0x40),
      UInt8.ofNat (0x80 + code % 0x40)]
  else
    [UInt8.ofNat (0xf0 + code / 0x40000), UInt8.ofNat (0x80 + code / 0x1000 % 0x40),
      UInt8.ofNat (0x80 + code / 0x40 % 0x40), UInt8.ofNat (0x80 + code % 0x40)]

def encodeChars : List Char → List UInt8
  | [] => []
  | c :: rest => encodeChar c ++ encodeChars rest

def encode (text : String) : List UInt8 := encodeChars text.toList

/-- How a sequence of bytes starts: with a character of `size` bytes, or with `size` bytes
that begin no character. -/
inductive Start where
  | char (value : Char) (size : Nat)
  | broken (size : Nat)
deriving DecidableEq

def between (low high : Nat) (byte : UInt8) : Bool := low ≤ byte.toNat && byte.toNat ≤ high

/-- The second bytes that may follow a first byte. The limits keep out longer spellings of
a character, surrogates, and code points beyond the last. -/
def secondRange (first : Nat) : Nat × Nat :=
  if first = 0xe0 then (0xa0, 0xbf)
  else if first = 0xed then (0x80, 0x9f)
  else if first = 0xf0 then (0x90, 0xbf)
  else if first = 0xf4 then (0x80, 0x8f)
  else (0x80, 0xbf)

def bits (byte : UInt8) : Nat := byte.toNat % 0x40

/-- Reads the bytes after the first byte of a longer character. A sequence that breaks off is
broken up to the byte that does not fit, so that byte is read again. -/
def startLong (first : UInt8) (rest : List UInt8) : Start :=
  let limits := secondRange first.toNat
  match rest with
  | [] => .broken 1
  | second :: rest =>
    if first.toNat < 0xe0 then
      if between 0x80 0xbf second then
        .char (Char.ofNat ((first.toNat - 0xc0) * 0x40 + bits second)) 2
      else .broken 1
    else if !between limits.1 limits.2 second then .broken 1
    else match rest with
      | [] => .broken 2
      | third :: rest =>
        if !between 0x80 0xbf third then .broken 2
        else if first.toNat < 0xf0 then
          .char (Char.ofNat ((first.toNat - 0xe0) * 0x1000 + bits second * 0x40 + bits third)) 3
        else match rest with
          | [] => .broken 3
          | fourth :: _ =>
            if between 0x80 0xbf fourth then
              .char (Char.ofNat ((first.toNat - 0xf0) * 0x40000 + bits second * 0x1000
                + bits third * 0x40 + bits fourth)) 4
            else .broken 3

def start (first : UInt8) (rest : List UInt8) : Start :=
  if first.toNat < 0x80 then .char (Char.ofNat first.toNat) 1
  else if between 0xc2 0xf4 first then startLong first rest
  else .broken 1

/-- Reads bytes as text, with one replacement character for each run of bytes that begins
no character. -/
def decodeLossyChars : List UInt8 → List Char
  | [] => []
  | first :: rest =>
    match start first rest with
    | .char value size => value :: decodeLossyChars (rest.drop (size - 1))
    | .broken size => Char.ofNat 0xfffd :: decodeLossyChars (rest.drop (size - 1))
termination_by bytes => bytes.length
decreasing_by all_goals simp only [List.length_drop, List.length_cons]; omega

def decodeLossy (bytes : List UInt8) : String := String.ofList (decodeLossyChars bytes)

/-- Reads bytes as text, if they are the bytes of a text. -/
def decodeChars? : List UInt8 → Option (List Char)
  | [] => some []
  | first :: rest =>
    match start first rest with
    | .char value size => (decodeChars? (rest.drop (size - 1))).map (value :: ·)
    | .broken _ => none
termination_by bytes => bytes.length
decreasing_by all_goals simp only [List.length_drop, List.length_cons]; omega

def decode? (bytes : List UInt8) : Option String := (decodeChars? bytes).map String.ofList

end Arcade.Utf8
