import Bulletin.Clock
import Bulletin.Demo
import Std.Async.Select
import Std.Async.Signal
import Std.Async.Timer

/-!
# The demo as a program

Waits, reads the clock and prints; what is printed is decided in `Bulletin.Demo`.
-/

namespace Bulletin.Demo

open Std.Async

/-- Waits for half a second to 700 ms; false when an interrupt comes first. -/
def pause (interrupt : Signal.Waiter) : Async Bool := do
  let delay ← IO.rand 500 700
  Selectable.one #[
    .case interrupt.selector fun _ => pure false,
    .case (← Selector.sleep (Std.Time.Millisecond.Offset.ofNat delay)) fun _ => pure true]

def report (lines : List String) : IO Unit := do
  lines.forM IO.println
  (← IO.getStdout).flush

/-- Turn after turn until an interrupt. -/
partial def loop (interrupt : Signal.Waiter) (state : State) : IO UInt32 := do
  if ← (pause interrupt).block then
    match turn state (← wallClock) with
    | .ok (state, lines) =>
      report lines
      loop interrupt state
    | .error error =>
      IO.eprintln ("Error: " ++ error.message)
      return 1
  else
    report [stopLine]
    return 0

def run (arguments : List String) : IO UInt32 := do
  match parse arguments with
  | .error refusal =>
    IO.eprint refusal.text
    return refusal.exitCode
  | .ok setup =>
    report [startLine setup]
    loop (← Signal.Waiter.mk .sigint false) (start setup)

end Bulletin.Demo

def main (arguments : List String) : IO UInt32 :=
  Bulletin.Demo.run arguments
