/-!
# Failures of the compressed format

What can be wrong with a compressed payload, and how it is worded.
-/

namespace Depot.Zstd

/-- The cause for which a compressed payload is refused. -/
inductive Fault where
  /-- The payload does not begin with a frame. -/
  | unknownFrame
  /-- A reserved bit of the frame header is set. -/
  | unsupportedParameter
  /-- The window exceeds what a reader grants. -/
  | windowTooLarge
  | corrupted
  | badChecksum
  | wrongDictionary
  /-- A table is taken over from an earlier block, but there is none. -/
  | noEarlierTable
  /-- Too few literals for four streams. -/
  | literalsHeader
  /-- A block ends within its own description. -/
  | shortBlock
  /-- A block holds more than the frame announces. -/
  | overlongBlock
  /-- The payload ends within a frame. -/
  | incomplete
  /-- Decoding neither takes nor gives anything, however often it is tried. -/
  | noProgress
  deriving DecidableEq, Repr

def Fault.message : Fault → String
  | .unknownFrame => "Unknown frame descriptor"
  | .unsupportedParameter => "Unsupported frame parameter"
  | .windowTooLarge => "Frame requires too much memory for decoding"
  | .corrupted => "Data corruption detected"
  | .badChecksum => "Restored data doesn't match checksum"
  | .wrongDictionary => "Dictionary mismatch"
  | .noEarlierTable => "Dictionary is corrupted"
  | .literalsHeader => "Header of Literals' block doesn't respect format specification"
  | .shortBlock => "Src size is incorrect"
  | .overlongBlock => "Destination buffer is too small"
  | .incomplete => "incomplete frame"
  | .noProgress =>
    "Operation made no progress over multiple calls, due to output buffer being full"

end Depot.Zstd
