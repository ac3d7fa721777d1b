import Lox.Console.CommandLine

namespace Lox

def readBytes (path : String) : IO (Option ByteArray) := do
  try
    return some (← IO.FS.readBinFile path)
  catch _ => return none

partial def talk (d : Dialogue) : IO UInt32 := do
  let stdout ← IO.getStdout
  stdout.putStr d.prompt
  stdout.flush
  let line ← (← IO.getStdin).getLine
  let entered := if line.isEmpty then "EOF" else Dialogue.entered line
  let (x, d, verdict) := d.exchange CommandLine.manyRounds entered
  let (log, session) := d.session.takeLog
  stdout.putStr (x.written ++ x.printed)
  (← IO.getStderr).putStr log
  match verdict with
  | .goOn => talk { d with session }
  | verdict => return UInt32.ofNat verdict.status.toNat

def conclude (c : Completion) : IO UInt32 := do
  (← IO.getStdout).putStr c.out
  (← IO.getStderr).putStr c.err
  return UInt32.ofNat c.status.toNat

end Lox

open Lox in
def main (args : List String) : IO UInt32 := do
  match CommandLine.plan args with
  | .done c => conclude c
  | .file o path =>
    conclude (CommandLine.onFile Emphasis.ansi CommandLine.manyRounds o path (← readBytes path))
  | .dialogue o => do
    IO.println Dialogue.intro
    talk { session := .atConsole (CommandLine.reporter Emphasis.ansi o) }
