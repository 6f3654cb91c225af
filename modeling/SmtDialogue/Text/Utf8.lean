/-
  Text that arrives as bytes: UTF-8, decoded one character at a time.

  Bytes are decoded as by the library `utf8_decode`, in the form that takes a
  stream which may fail. Relied on are the rules of UTF-8 for the bytes of a
  text, and for other bytes what the library does: it takes a byte at a time,
  and tells what is wrong by the two messages `invalidMessage` and
  `truncatedMessage`.

  * `Utf8.decode` takes the bytes that the first byte of a character announces
    and no more, so that a character is known as soon as its last byte is there.
    It is lenient: overlong forms are read. A byte that does not continue the
    character is taken with the failure, and decoding goes on behind it;
  * `Utf8.encode` gives the bytes of a text, and `Utf8.display` shows bytes that
    need not be whole characters.
-/
import SmtDialogue.Text.Source

namespace SmtDialogue

/-- One answer of a stream that is asked for a byte. -/
inductive ByteRead where
  | byte (value : UInt8)
  /-- The stream failed, and may be asked again. -/
  | failure (message : String)
  /-- The stream reported its end, and may still be asked again. -/
  | stop
deriving DecidableEq, Repr

/-- One read from a stream: some bytes at once, or a failure. -/
inductive Chunk where
  | bytes (values : List UInt8)
  | failure (message : String)
deriving DecidableEq, Repr

/-- The bytes of a read, one by one. A read without bytes says nothing. -/
def Chunk.reads : Chunk → List ByteRead
  | .bytes values => values.map .byte
  | .failure message => [.failure message]

namespace Utf8

/-- The bytes of a text. -/
def encode (text : List Char) : List UInt8 :=
  text.flatMap String.utf8EncodeChar

/-! ## Decoding -/

/-- A character of which some bytes have been taken: how many are `missing`, how
    many are `taken`, and the number that the bits so far stand for. -/
structure Partial where
  missing : Nat
  taken : Nat
  bits : Nat
deriving DecidableEq, Repr

/-- The first byte of a character announces how many bytes follow it. -/
def lead? (b : Nat) : Option Partial :=
  if b < 0x80 then some ⟨0, 1, b⟩
  else if b < 0xC0 then none
  else if b < 0xE0 then some ⟨1, 1, b % 0x20⟩
  else if b < 0xF0 then some ⟨2, 1, b % 0x10⟩
  else if b < 0xF8 then some ⟨3, 1, b % 0x08⟩
  else none

/-- A byte that continues a character carries six more bits. -/
def Partial.extend? (p : Partial) (b : Nat) : Option Partial :=
  if 0x80 ≤ b ∧ b < 0xC0 then some ⟨p.missing - 1, p.taken + 1, p.bits * 0x40 + b % 0x40⟩
  else none

/-- What is wrong with bytes that form no character. -/
def invalidMessage : String := "invalid UTF-8 sequence."

/-- What is wrong with an input that ends inside a character. -/
def truncatedMessage : String := "unexpected end of UTF-8 sequence."

/-- The character with all its bytes taken. Surrogates and numbers above the last
    code point are no characters. -/
def Partial.complete (p : Partial) : Pull :=
  if p.bits.isValidChar then .char (Char.ofNat p.bits) p.taken
  else .failure invalidMessage p.taken

/-- The characters that the bytes stand for, the bytes of `begun` being the first
    ones of the character at the head. -/
def decodeFrom (begun : Option Partial) : List ByteRead → Source
  | [] =>
    match begun with
    | none => []
    | some p => [.failure truncatedMessage p.taken]
  | .stop :: rest =>
    match begun with
    | none => .stop :: decodeFrom none rest
    | some p => .failure truncatedMessage p.taken :: decodeFrom none rest
  | .failure message :: rest =>
    .failure message (begun.elim 0 Partial.taken) :: decodeFrom none rest
  | .byte value :: rest =>
    match begun.elim (lead? value.toNat) (·.extend? value.toNat) with
    | none => .failure invalidMessage (begun.elim 0 Partial.taken + 1) :: decodeFrom none rest
    | some p =>
      if p.missing = 0 then p.complete :: decodeFrom none rest else decodeFrom (some p) rest

/-- The characters of a stream of bytes. -/
def decode (reads : List ByteRead) : Source :=
  decodeFrom none reads

/-- Bytes as text, with a replacement character for what is no character. -/
def display (bytes : List UInt8) : String :=
  String.ofList ((decode (bytes.map .byte)).map fun pull => pull.char?.getD '\uFFFD')

example : decode [.byte 0xC3, .byte 0xA9, .byte 0xFF, .byte 0x61] =
    [.char 'é' 2, .failure invalidMessage 1, .char 'a' 1] := by decide

end Utf8

/-- The characters of the chunks that a stream delivers. -/
def Source.ofChunks (chunks : List Chunk) : Source :=
  Utf8.decode (chunks.flatMap Chunk.reads)

end SmtDialogue
