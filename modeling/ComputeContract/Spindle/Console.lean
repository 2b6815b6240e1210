import ComputeContract.Lib.Chunked
import ComputeContract.Util.Text

/-!
# The console stream

The policy engine streams the output of a task as server-sent events. The bytes come in chunks:
a streaming decoder makes characters of them, the characters wait in a buffer until there is a
blank line, and of the messages before it the lines with data are taken, until one that says
that the stream is done.

* `readChunk`: what a chunk gives, and what is kept for the next one;
* `chunked_readChunk`: the lines do not depend on where the bytes are cut.
-/

namespace ComputeContract.Spindle

open Chunks

/-! ## Text -/

/-- A byte of the streaming decoder. -/
def decodeByte (s : TextDecoder.State) (b : UInt8) : List Char × TextDecoder.State :=
  TextDecoder.step s b.toNat

/-- The first character is dropped if it is a byte order mark. -/
def dropBom (seen : Bool) (c : Char) : List Char × Bool :=
  if !seen ∧ c = '\uFEFF' then ([], true) else ([c], true)

/-- `decoder.decode(value, { stream: true })`. -/
def decode : Reader (TextDecoder.State × Bool) UInt8 Char := andThen (scan decodeByte) (scan dropBom)

/-! ## Messages -/

/-- The characters before the first blank line, and those after it. -/
def cutMessage : List Char → Option (List Char × List Char)
  | [] => none
  | c :: cs =>
    if c = '\n' ∧ cs.head? = some '\n' then some ([], cs.tail)
    else (cutMessage cs).map fun p => (c :: p.1, p.2)

def startsWith (pre cs : List Char) : Bool := pre.isPrefixOf cs

/-- A line of a message: nothing is read any more once the stream is `done`. -/
def rawLine (done : Bool) (line : List Char) : List String × Bool :=
  if done || startsWith "event: done".toList line then ([], true)
  else if startsWith "data: ".toList line then ([String.ofList (line.drop 6)], false)
  else ([], false)

def readMessage (done : Bool) (message : List Char) : List String × Bool :=
  scan rawLine done (message.splitOn '\n')

/-- What the reader keeps between two chunks: the state of the decoder, the buffer, and whether
    the stream is done. -/
abbrev ReaderState := ((TextDecoder.State × Bool) × List Char) × Bool

/-- The data of the lines that a chunk completes. -/
def readChunk : Reader ReaderState UInt8 String :=
  andThen (andThen decode (withRest cutMessage)) (scan readMessage)

def newReader : ReaderState := (((TextDecoder.ready, false), []), false)

/-- The lines of a stream, from all its bytes. -/
def streamLines (bytes : Bytes) : List String := (readChunk newReader bytes).1

/-! ## Where the bytes are cut -/

theorem cuts_cutMessage : Cuts cutMessage where
  length_lt := by
    intro xs x rest h
    induction xs generalizing x with
    | nil => cases h
    | cons c cs ih =>
      rw [cutMessage] at h
      split_ifs at h
      · cases h
        rw [List.length_tail, List.length_cons]
        omega
      · obtain ⟨p, hp, hpair⟩ := Option.map_eq_some_iff.1 h
        cases hpair
        exact (ih hp).trans (Nat.lt_succ_self _)
  append := by
    intro xs x rest h ys
    induction xs generalizing x with
    | nil => cases h
    | cons c cs ih =>
      rw [cutMessage] at h
      rw [List.cons_append, cutMessage]
      split_ifs at h with hblank
      · cases h
        obtain ⟨rfl, hhead⟩ := hblank
        obtain ⟨cs', rfl⟩ := List.head?_eq_some_iff.1 hhead
        rfl
      · obtain ⟨p, hp, hpair⟩ := Option.map_eq_some_iff.1 h
        cases hpair
        -- What follows cannot make a blank line of the first character.
        have hne : cs ≠ [] := by
          rintro rfl
          cases hp
        rw [List.head?_append_of_ne_nil _ hne, if_neg hblank, ih hp]
        rfl

/-- The lines of two chunks are those of the bytes of both. -/
theorem chunked_readChunk : Chunked readChunk :=
  (((chunked_scan _).andThen (chunked_scan _)).andThen (chunked_withRest cuts_cutMessage)).andThen
    (chunked_scan _)

end ComputeContract.Spindle
