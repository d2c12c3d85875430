import ManagedPdb.Reader.Field

/-!
# Cursors

A cursor is a buffer that is used again for one stream after the other.  The buffer only grows;
the content is its first `length` bytes, and bytes behind the content are left over from longer
content.  Readers run on the content alone, so that left-over bytes are never read.
-/

namespace ManagedPdb

/-- A buffer with content in front and a position in the content. -/
structure Cursor where
  buffer : ByteArray
  length : Nat
  position : Nat

/-- What writes to a region of a buffer.  It is given the bytes that the region holds and leaves as
many, whether or not it fails. -/
structure RegionWriter where
  write : ByteArray → Except DecodeError Unit × ByteArray
  size_write : ∀ region, (write region).2.size = region.size

namespace RegionWriter

/-- Reads all of a region from a source.  If the source has too few bytes, nothing is written. -/
def ofSource (source : ByteArray) : RegionWriter where
  write region :=
    if region.size ≤ source.size then (.ok (), source.extract 0 region.size)
    else (.error (.ofKind .sourceUnreadable), region)
  size_write region := by
    split
    · next h => rw [ByteArray.size_extract, Nat.min_eq_left h, Nat.sub_zero]
    · rfl

instance : Coe ByteArray RegionWriter := ⟨ofSource⟩

end RegionWriter

namespace Cursor

def empty : Cursor := ⟨ByteArray.empty, 0, 0⟩

/-- No content, and a buffer of `capacity` bytes. -/
def withCapacity (capacity : Nat) : Cursor := ⟨Bytes.zeros capacity, 0, 0⟩

/-- The given content, at its start. -/
def ofBytes (bytes : ByteArray) : Cursor := ⟨bytes, bytes.size, 0⟩

def content (cursor : Cursor) : ByteArray := cursor.buffer.extract 0 cursor.length

/-- The number of content bytes behind the position. -/
def remaining (cursor : Cursor) : Nat := cursor.length - cursor.position

def isEmpty (cursor : Cursor) : Bool := cursor.length == 0

/-- The buffer with at least `capacity` bytes. -/
def grow (cursor : Cursor) (capacity : Nat) : Cursor :=
  { cursor with buffer := cursor.buffer ++ Bytes.zeros (capacity - cursor.buffer.size) }

def stage (cursor : Cursor) (bytes : ByteArray) : Cursor where
  buffer := Bytes.overwrite (cursor.grow bytes.size).buffer 0 bytes
  length := bytes.size
  position := 0

/-- Replaces the content by the first `count` bytes of `source`.  If there are fewer, the length
is announced all the same, and the content is whatever the buffer held. -/
def fill (cursor : Cursor) (source : ByteArray) (count : Nat) :
    Except DecodeError Unit × Cursor :=
  if count ≤ source.size then
    (.ok (), cursor.stage (source.extract 0 count))
  else
    (.error (.ofKind .sourceUnreadable), ⟨(cursor.grow count).buffer, count, 0⟩)

/-- Lets `writer` write `count` bytes at the position, whatever the buffer holds there, and moves
behind them; the content grows if they go beyond it.  If the writer fails, the position and the
length stay, but not what it has written over. -/
def append (cursor : Cursor) (writer : RegionWriter) (count : Nat) :
    Except DecodeError Unit × Cursor :=
  let stop := cursor.position + count
  let grown := cursor.grow stop
  let (outcome, written) := writer.write (grown.buffer.extract cursor.position stop)
  let buffer := Bytes.overwrite grown.buffer cursor.position written
  match outcome with
  | .ok () => (.ok (), { buffer, length := max cursor.length stop, position := stop })
  | .error error => (.error error, { cursor with buffer })

def clear (cursor : Cursor) : Cursor := { cursor with length := 0, position := 0 }

/-- Runs a reader on the content from the position on, and stays where it stopped. -/
def run {α : Type} (cursor : Cursor) (reader : Reader α) : Except DecodeError α × Cursor :=
  match reader cursor.content cursor.position with
  | .done value position => (.ok value, { cursor with position })
  | .failed error position => (.error error, { cursor with position })

end Cursor

end ManagedPdb
