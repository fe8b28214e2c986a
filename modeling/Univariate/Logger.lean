import Univariate.Settings

namespace Univariate

structure Logger where
  threshold : Level
  toFile : Bool
  deriving DecidableEq, Repr

structure Logger.Start where
  logger? : Option Logger
  file : Bool
  messages : List Message

namespace Logger

/-- Starts a log for a level, unless that is silence or a log is running. -/
def start (running? : Option Logger) (level : Option String) (toFile : Bool) :
    Except SolverError Start :=
  (Level.threshold level).map fun threshold? =>
    match threshold?, running? with
    | none, _ => ⟨running?, false, []⟩
    | some _, some running =>
      ⟨some running, false, [⟨.debug, .log, "logger already installed, keeping it"⟩]⟩
    | some threshold, none => ⟨some ⟨threshold, toFile⟩, toFile, []⟩

def fileLines (logger? : Option Logger) (messages : List Message) : List (List Char) :=
  match logger? with
  | some logger =>
    if logger.toFile then Message.lines (Message.filter logger.threshold messages) else []
  | none => []

/-- The name of a log file, with a zero for every digit of its time. -/
def fileName : String := "log_0000-00-00_00-00-00.txt"

end Logger

end Univariate
