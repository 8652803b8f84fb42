import SigComp.Bytes

/-!
# Stream framing

On a stream a message ends with the two bytes `ff ff`.  A byte `ff` inside a message
is followed by a count, and that many bytes after it stand for themselves, whatever
they are.

* `Stream.mark` writes a message, with counts as large as they may be;
* `Stream.unmark?` reads the message at the front of a stream.
-/

namespace SigComp.Stream

/-- The byte that ends a message or opens a run. -/
def escape : UInt8 := 0xff

/-- The longest run of bytes that stand for themselves. -/
def maxRun : Nat := 127

/-- A message in its form on a stream. -/
def mark (message : Bytes) : Bytes :=
  match message with
  | [] => [escape, escape]
  | b :: rest =>
    if b = escape then
      let run := rest.take maxRun
      escape :: UInt8.ofNat run.length :: (run ++ mark (rest.drop maxRun))
    else b :: mark rest
termination_by message.length
decreasing_by
  all_goals simp only [List.length_drop, List.length_cons]
  all_goals omega

/-- The message at the front of a stream, after the bytes `acc` (newest first) that have been read
already, and what follows it. -/
def read? (acc : Bytes) (stream : Bytes) : Option (Bytes × Bytes) :=
  match stream with
  | [] => none
  | b :: rest =>
    if b = escape then
      match rest with
      | [] => none
      | count :: rest =>
        if count = escape then some (acc.reverse, rest)
        else if count.toNat > maxRun then none
        else
          let run := rest.take count.toNat
          if run.length = count.toNat then
            read? (run.reverse ++ escape :: acc) (rest.drop count.toNat)
          else none
    else read? (b :: acc) rest
termination_by stream.length
decreasing_by
  all_goals simp only [List.length_drop, List.length_cons]
  all_goals omega

/-- The message at the front of a stream and the number of bytes that it takes up there; nothing if
the stream ends first or a count is too large. -/
def unmark? (stream : Bytes) : Option (Bytes × Nat) :=
  (read? [] stream).map fun (message, rest) => (message, stream.length - rest.length)

end SigComp.Stream
