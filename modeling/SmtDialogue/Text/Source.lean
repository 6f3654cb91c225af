/-
  Sources of characters: everything that a stream answers when it is asked for
  its next character, again and again, from now on.

  * a source that runs empty reports its end forever;
  * `Source.run` splits off the longest run of characters of a class;
  * `head_run`: what follows the run does not start with one.
-/

namespace SmtDialogue

/-- One answer of a stream that is asked for a character. Its `size` counts the
    units (characters or bytes) that the stream gave away for the answer. -/
inductive Pull where
  /-- A character. -/
  | char (c : Char) (size : Nat)
  /-- The stream failed, and may be asked again. -/
  | failure (message : String) (size : Nat)
  /-- The stream reported its end, and may still be asked again. -/
  | stop
deriving DecidableEq, Repr

namespace Pull

/-- The units given away for an answer. -/
def size : Pull → Nat
  | .char _ size | .failure _ size => size
  | .stop => 0

/-- The character of an answer that is one. -/
def char? : Pull → Option Char
  | .char c _ => some c
  | .failure _ _ | .stop => none

/-- The answer is a character of the class `p`. -/
def isIn (p : Char → Bool) (pull : Pull) : Bool :=
  pull.char?.any p

end Pull

/-- The answers of a stream in order. -/
abbrev Source := List Pull

namespace Source

/-- The characters of a text, counted one by one. -/
def ofChars (chars : List Char) : Source :=
  chars.map (.char · 1)

/-- The units that the stream gives away for all its answers. -/
def size (source : Source) : Nat :=
  source.foldl (fun units pull => units + pull.size) 0

@[simp] theorem size_nil : size [] = 0 := rfl

@[simp] theorem size_cons (pull : Pull) (source : Source) :
    size (pull :: source) = pull.size + size source := by
  have shift (units : Nat) : ∀ source : Source,
      source.foldl (fun units pull => units + pull.size) units
        = units + source.foldl (fun units pull => units + pull.size) 0 := by
    intro source
    induction source generalizing units with
    | nil => rfl
    | cons next rest ih =>
      rw [List.foldl_cons, List.foldl_cons, ih, ih (0 + next.size)]
      omega
  rw [size, List.foldl_cons, shift, size]
  omega

/-- The longest run of characters of the class `p` at the head of a source, and
    what follows it. -/
def run (p : Char → Bool) (source : Source) : List Char × Source :=
  ((source.takeWhile (Pull.isIn p)).filterMap Pull.char?, source.dropWhile (Pull.isIn p))

theorem head_run {p : Char → Bool} {source : Source} {c : Char} {size : Nat} {rest : Source}
    (h : (source.run p).2 = .char c size :: rest) : ¬ p c := by
  have hout := List.head?_dropWhile_not (Pull.isIn p) source
  simp only [run] at h
  simpa [h, Pull.isIn, Pull.char?] using hout

theorem length_run_le (p : Char → Bool) (source : Source) :
    (source.run p).2.length ≤ source.length :=
  (List.dropWhile_sublist _).length_le

end Source

end SmtDialogue
