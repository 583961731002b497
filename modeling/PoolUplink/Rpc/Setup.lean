import PoolUplink.Rpc.Message

/-!
# Setup requests

Four requests open a session with a pool. Each has a fixed id, by which its response is known.
-/

set_option autoImplicit false
set_option relaxedAutoImplicit false

namespace PoolUplink.Rpc.Setup

open PoolUplink.Json

inductive Exchange where
  | subscribe
  | configure
  | features
  | authorize
  deriving DecidableEq, Repr

def Exchange.id : Exchange → String
  | subscribe => "sub"
  | configure => "conf"
  | features => "caps"
  | authorize => "auth"

def Exchange.ofId? (id : String) : Option Exchange :=
  [subscribe, configure, features, authorize].find? (·.id == id)

def versionRolling : String := "verrol"

def submitResponse : String := "subres"

def subscribe (userAgent : String) : Message :=
  .named Exchange.subscribe.id "mining.subscribe" (.array [.string userAgent])

/-- Asks to roll all bits of the version. -/
def configure : Message :=
  .named Exchange.configure.id "mining.configure"
    (.array [.array [.string "version-rolling"],
      .object [("version-rolling.mask", .string "ffffffff"),
        ("version-rolling.min-bit-count", .ofNat 0)]])

def features : Message :=
  .named Exchange.features.id "agent.get_capabilities" (.array [.array [.string versionRolling]])

/-- Authorizes an account with an empty password. -/
def authorize (account : String) : Message :=
  .named Exchange.authorize.id "mining.authorize" (.array [.string account, .string ""])

def all (userAgent account : String) : List Message :=
  [subscribe userAgent, configure, features, authorize account]

end PoolUplink.Rpc.Setup
