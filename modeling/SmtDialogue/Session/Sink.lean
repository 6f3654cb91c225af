/-
  Sinks: where requests are written.

  * `Sink` is what a session needs to know of the stream to its solver;
  * `Recorder` keeps what is written, and fails as it is told to.
-/
import SmtDialogue.Text.Utf8

namespace SmtDialogue

/-- A stream to write on. Each operation says how it went and what the stream is
    afterwards. -/
class Sink (σ : Type) where
  /-- Takes a text. If it fails it may have taken a part of the text. -/
  write : String → σ → Except String Unit × σ
  /-- Sends off what has been taken. -/
  flush : σ → Except String Unit × σ

/-- A sink that keeps what it takes. -/
structure Recorder where
  bytes : List UInt8 := []
  /-- How many bytes it can hold, if there is a limit. -/
  room : Option Nat := none
  flushes : Nat := 0
  /-- The flush that fails, counted from 1. -/
  failingFlush : Option Nat := none
deriving DecidableEq, Repr

namespace Recorder

/-- Takes a text as far as there is room for it. -/
def write (text : String) (r : Recorder) : Except String Unit × Recorder :=
  let bytes := Utf8.encode text.toList
  match r.room with
  | none => (.ok (), { r with bytes := r.bytes ++ bytes })
  | some room =>
    let free := room - r.bytes.length
    (if bytes.length ≤ free then .ok () else .error "sink full",
      { r with bytes := r.bytes ++ bytes.take free })

/-- Counts the flushes, the failing one included. -/
def flush (r : Recorder) : Except String Unit × Recorder :=
  (if r.failingFlush = some (r.flushes + 1) then .error "flush failed" else .ok (),
    { r with flushes := r.flushes + 1 })

instance : Sink Recorder where
  write := write
  flush := flush

end Recorder

end SmtDialogue
