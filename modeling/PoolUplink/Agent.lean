import PoolUplink.Fleet
import PoolUplink.Log.Journal
import PoolUplink.Log.Line
import PoolUplink.Settings.Variables

/-!
# The agent

The agent reads its settings from its surroundings, launches its fleet, waits for a signal, and
shuts down. What it prints depends on the filter in its surroundings.
-/

set_option autoImplicit false
set_option relaxedAutoImplicit false

namespace PoolUplink.Agent

open PoolUplink.Uplink

/-- What the agent finds around it. -/
structure Surroundings where
  /-- The variables of the environment. -/
  lookup : String → Option String
  file : String → Settings.Variables.File
  /-- The stream that diagnostics go to, if it is known. -/
  diagnostics : Option Log.Journal.Stream
  journalFault : String
  dial : Endpoint → Uplink.Dial

inductive Signal where
  | interrupt
  | terminate
  deriving DecidableEq, Repr

def Signal.name : Signal → String
  | interrupt => "SIGINT"
  | terminate => "SIGTERM"

structure Report where
  exitCode : Nat
  printed : List String
  diagnostics : String
  deriving DecidableEq, Repr

def filterVariable : String := "RUST_LOG"

def journalVariable : String := "JOURNAL_STREAM"

def accountVariable : String := "AGENT_SUB_ACCOUNT"

def filter (s : Surroundings) : Log.Filter :=
  match s.lookup filterVariable with
  | some text => Log.Filter.ofText text
  | none => .standard

def isJournaled (s : Surroundings) : Bool :=
  match (s.lookup journalVariable).bind Log.Journal.stream? with
  | some stream => s.diagnostics == some stream
  | none => false

/-- What is logged about the log itself: that the journal should be used and cannot be. -/
def preamble (s : Surroundings) : List Log.Record :=
  if isJournaled s then
    [⟨.error, "stratum_agent::tracing", "Failed to initialize journald logging, using stdout",
      [("error", s.journalFault)]⟩]
  else []

/-- A cause below the others, its further lines indented. A cause that is not alone is numbered. -/
def cause (alone : Bool) (number : Nat) (text : String) : String :=
  let digits := Text.Numeral.text number
  let margin := if alone then "    " else "       "
  let head := if alone then "    "
    else String.ofList (List.replicate (5 - digits.length) ' ') ++ digits ++ ": "
  head ++ String.intercalate ("\n" ++ margin) (text.splitOn "\n")

def complaint (failure : String) (causes : List String) : String :=
  let listed := causes.zipIdx.map fun c => cause (causes.length == 1) c.2 c.1
  "Error: " ++ failure ++ "\n\nCaused by:\n" ++ String.intercalate "\n" listed ++ "\n"

inductive Obstacle where
  | settings (refusal : Settings.Refusal)
  | accountUnset
  | fleet (fault : Fault)
  deriving DecidableEq, Repr

def Obstacle.diagnostics : Obstacle → String
  | settings (.unreadable reason) => complaint "loading configuration"
      [(Settings.Refusal.unreadable reason).message, reason]
  | settings refusal => complaint "loading configuration" [refusal.message]
  | accountUnset => complaint (accountVariable ++ " is not set") ["environment variable not found"]
  | fleet fault => "Error: " ++ fault.message ++ "\n"

structure Crew where
  account : String
  uplinks : List Uplink

/-- Reads the settings and then the account, and creates the uplinks. -/
def assemble (s : Surroundings) : Except Obstacle Crew :=
  match Settings.Variables.load s.lookup s.file with
  | .error refusal => .error (.settings refusal)
  | .ok settings =>
    match s.lookup accountVariable with
    | none => .error .accountUnset
    | some account =>
      match Fleet.create settings account with
      | .error fault => .error (.fleet fault)
      | .ok uplinks => .ok ⟨account, uplinks⟩

def note (level : Log.Level) (message : String) (fields : List (String × String)) : Log.Record :=
  ⟨level, Fleet.target, message, fields⟩

def started (crew : Crew) : Log.Record :=
  note .info "Started."
    [("pools", Text.Numeral.text crew.uplinks.length), ("sub_account", crew.account)]

def stopping (signal : Signal) : List Log.Record :=
  [note .info ("Received " ++ signal.name) [], note .trace "Shutting down." []]

def exiting : Log.Record := note .info "Exiting." []

def serve (s : Surroundings) (crew : Crew) (signal : Signal) : List Log.Record :=
  let launched := crew.uplinks.map fun u => Fleet.launch u (s.dial u.pool)
  let halted := launched.map fun t => Fleet.halt t.uplink
  (launched.flatMap Turn.records) ++ [started crew] ++ stopping signal ++
    (halted.flatMap Turn.records) ++ [exiting]

def run (s : Surroundings) (signal : Signal) : Report :=
  let shown (records : List Log.Record) : List String :=
    (preamble s ++ records).filterMap (Log.Line.print? (filter s))
  match assemble s with
  | .error obstacle => ⟨1, shown [], obstacle.diagnostics⟩
  | .ok crew => ⟨0, shown (serve s crew signal), ""⟩

end PoolUplink.Agent
