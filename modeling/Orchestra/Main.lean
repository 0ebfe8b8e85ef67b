import Orchestra.Console.Session

/-!
# The program

Runs a session of the small process on the standard input: everything that is typed is read first,
then the session is played and its records are printed.  Input that ends without `quit` ends the
session as an interrupt would.
-/

open Orchestra

/-- Reads a stream to its end, after the bytes read so far. -/
partial def readToEnd (input : IO.FS.Stream) (soFar : ByteArray) : IO ByteArray := do
  let chunk ← input.read 65536
  if chunk.isEmpty then return soFar else readToEnd input (soFar ++ chunk)

/-- A record as it is printed. -/
def printed (r : Record) : String :=
  String.ofList (List.replicate (5 - r.level.label.length) ' ') ++ r.level.label ++ " " ++ r.origin
    ++ ": " ++ r.line

def main : IO UInt32 := do
  let bytes ← readToEnd (← IO.getStdin) .empty
  let denied ← IO.getEnv "MODVISOR_DEMO_DENY"
  let token ← IO.getEnv "MODVISOR_DEMO_TOKEN"
  let filter ← IO.getEnv "RUST_LOG"
  let around : Console.Surroundings :=
    { lines := Text.Lines.read (bytes.toList.map UInt8.toNat)
      denied := denied.isSome
      token := token
      signal := some .interrupt }
  let session := Console.run around (Filter.ofSetting filter)
  for r in session.records do
    IO.println (printed r)
  IO.eprint session.complaint
  return session.status.toUInt32
