import MetricLayer.CommandLine.Run
import Std.Time

/-!
# The program

The command line on a real machine.
-/

namespace MetricLayer

open Calendar

/-- What a path of the machine leads to. -/
def machineEntry (path : String) : IO FileEntry := do
  if path.isEmpty then return .missing
  let resolved ← try pure (some (← IO.FS.realPath path)) catch _ => pure none
  match resolved with
  | none => return .missing
  | some resolved =>
    if !(← resolved.pathExists) then return .missing
    try return .text (← IO.FS.readFile resolved) catch _ => return .unreadable

/-- The directory of the user's configuration files. -/
def machineConfigDirectory? : IO (Option String) := do
  match ← IO.getEnv "XDG_CONFIG_HOME" with
  | some path => if path.toList.head? = some '/' then return some path
  | none => pure ()
  return (← IO.getEnv "HOME").map (· ++ "/.config")

/-- The machine that the program runs on. -/
def machine : Host IO :=
  ⟨machineEntry, (IO.getEnv ·), machineConfigDirectory?⟩

/-- The local time. -/
def localTime : IO DateTime := do
  let now ← Std.Time.PlainDateTime.now
  match Date.ofParts? now.year.toInt now.month.toNat now.day.toNat with
  | some date =>
    return ⟨date, now.hour.toNat, now.minute.toNat, now.second.toNat, now.nanosecond.toNat⟩
  | none => throw (IO.userError "the clock shows a day outside of the calendar")

end MetricLayer

/-- Run the program with the given arguments. -/
def main (arguments : List String) : IO UInt32 := do
  let outcome ← MetricLayer.CommandLine.run MetricLayer.machine (← MetricLayer.localTime) arguments
  (← IO.getStdout).putStr outcome.output
  (← IO.getStderr).putStr outcome.diagnostics
  return outcome.code.toUInt32
