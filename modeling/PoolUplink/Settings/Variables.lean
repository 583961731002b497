import PoolUplink.Settings.Document

/-!
# Settings as variables

Without a document, settings come from environment variables. Pools are looked at first, then the
flag, then the time limits; that there are no pools at all is found last.
-/

set_option autoImplicit false
set_option relaxedAutoImplicit false

namespace PoolUplink.Settings.Variables

open PoolUplink.Text

def documentPath : String := "AGENT_CONFIG"

def pools : String := "AGENT_POOLS"

def submitResponse : String := "AGENT_SUBMIT_RESPONSE_FROM_SERVER"

def dialSeconds : String := "AGENT_DIAL_TIMEOUT_SECS"

def handshakeSeconds : String := "AGENT_HANDSHAKE_TIMEOUT_SECS"

def splitCommas (cs : List Char) : List (List Char) :=
  cs.foldr (fun c pieces =>
    if c = ',' then [] :: pieces
    else match pieces with
      | [] => [[c]]
      | piece :: rest => (c :: piece) :: rest) [[]]

/-- The items of a list that are not blank. -/
def items (value : String) : List String :=
  ((splitCommas value.toList).filter fun piece => !(Blank.trim piece).isEmpty).map String.ofList

/-- The pools that a list names, up to the first item that is none. -/
def readPools (value : String) : Except Refusal (List Endpoint) :=
  (items value).mapM endpoint

def readFlag (value : String) : Except Refusal Bool :=
  let word := String.ofList (Blank.trim value.toList)
  if ["1", "true", "yes"].contains word then .ok true
  else if ["0", "false", "no", ""].contains word then .ok false
  else .error (.invalidValue submitResponse value)

def readSeconds (key value : String) : Except Refusal UInt64 :=
  match Numeral.unsigned? 10 UInt64.size (Blank.trim value.toList) with
  | some n => .ok n.toUInt64
  | none => .error (.invalidValue key value)

/-- Reads a variable, or keeps the standard if it is not set. -/
def orStandard {α : Type} (standard : α) (read : String → Except Refusal α) :
    Option String → Except Refusal α
  | some value => read value
  | none => .ok standard

def read (lookup : String → Option String) : Except Refusal Settings := do
  let poolList ← orStandard standard.pools readPools (lookup pools)
  let flag ← orStandard standard.submitResponse readFlag (lookup submitResponse)
  let dial ← orStandard standard.dialSeconds (readSeconds dialSeconds) (lookup dialSeconds)
  let handshake ← orStandard standard.handshakeSeconds (readSeconds handshakeSeconds)
    (lookup handshakeSeconds)
  validate { standard with
    pools := poolList, submitResponse := flag, dialSeconds := dial, handshakeSeconds := handshake }

inductive File where
  | content (bytes : List UInt8)
  | missing
  | directory
  | barred (reason : String)
  deriving DecidableEq, Repr

def File.text : File → Except Refusal String
  | content bytes =>
    match String.fromUTF8? ⟨bytes.toArray⟩ with
    | some s => .ok s
    | none => .error (.unreadable "stream did not contain valid UTF-8")
  | missing => .error (.unreadable "No such file or directory (os error 2)")
  | directory => .error (.unreadable "Is a directory (os error 21)")
  | barred reason => .error (.unreadable reason)

/-- The settings of an environment. A document counts alone, whatever the other variables are. -/
def load (lookup : String → Option String) (file : String → File) : Except Refusal Settings :=
  match lookup documentPath with
  | some path =>
    match (file path).text with
    | .error refusal => .error refusal
    | .ok document => Document.read document
  | none => read lookup

end PoolUplink.Settings.Variables
