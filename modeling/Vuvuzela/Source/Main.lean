import Vuvuzela.Source.Server

/-!
# Source — how a server starts

`ReadPKI` of `pki.go` and `main` of `vuvuzela-server/server.go`, up to the services.  What
`ReadJSONFile` makes of the two files and how `vrpc.Dial` ends are arguments.  Of the
configuration only the fields that decide whether and as what a server starts are kept.
-/

namespace Vuvuzela

/-- `DefaultServerPort`. -/
def defaultServerPort : String := "2718"

/-- A `ServerInfo` as a file has it: the key may be missing. -/
structure ServerEntry where
  address : String
  publicKey : Option BoxKey

/-- A decoded PKI file; a nil pointer is `none`. -/
structure PKIFile where
  people : List (String × Option BoxKey)
  servers : List (String × Option ServerEntry)
  serverOrder : List String
  entryServer : String

structure Conf where
  serverName : String
  publicKey : Option BoxKey
  privateKey : Option BoxKey

/-- Why `main` stops before the services are there. -/
inductive Stop where
  | readFile (err : String)
  | noServers (jsonPath : String)
  | serverNotFound (jsonPath s : String)
  | noAddress (jsonPath s : String)
  | missingFields (confPath : String)
  | dial (err : String)
  | panic (p : Panic)

/-- What `log.Fatalf` prints; `quote` is `%q`. -/
def Stop.text (quote : String → String) : Stop → Option String
  | .readFile err => some err
  | .noServers jsonPath => some s!"{quote jsonPath}: ServerOrder must contain at least one server"
  | .serverNotFound jsonPath s => some s!"{quote jsonPath}: server {quote s} not found"
  | .noAddress jsonPath s =>
      some s!"{quote jsonPath}: server {quote s} does not specify an Address"
  | .missingFields confPath => some s!"missing required fields: {confPath}"
  | .dial err => some s!"vrpc.Dial: {err}"
  | .panic _ => none

def readJSONFile {α : Type} : Except String α → Except Stop α
  | .error err => .error (.readFile err)
  | .ok val => .ok val

/-- An address without a port gets the default one (`net.JoinHostPort`). -/
def withPort (addr : String) : String :=
  if ':' ∈ addr.toList then addr else addr ++ ":" ++ defaultServerPort

/-- `pki.Servers[s].Address = addr`. -/
def setAddress (s addr : String) (servers : List (String × Option ServerEntry)) :
    List (String × Option ServerEntry) :=
  servers.map fun p => (p.1, if p.1 = s then p.2.map ({ · with address := addr }) else p.2)

/-- The loop of `ReadPKI` over the order. -/
def readServers (jsonPath : String) :
    List String → List (String × Option ServerEntry) →
      Except Stop (List (String × Option ServerEntry))
  | [], servers => .ok servers
  | s :: order, servers =>
      match servers.lookup s with
      | none => .error (.serverNotFound jsonPath s)
      | some none => .error (.panic .nil)
      | some (some info) =>
          if info.address = "" then .error (.noAddress jsonPath s)
          else readServers jsonPath order (setAddress s (withPort info.address) servers)

def readPKI (jsonPath : String) (contents : Except String PKIFile) : Except Stop PKIFile := do
  let pki ← readJSONFile contents
  if pki.serverOrder = [] then .error (.noServers jsonPath)
  else do
    let servers ← readServers jsonPath pki.serverOrder pki.servers
    .ok { pki with servers := servers }

/-- The PKI the services are given.  `nilKey` stands for the nil key of a server without one: what
a server's place is does not depend on a key. -/
def PKIFile.pki (nilKey : BoxKey) (file : PKIFile) : PKI where
  people := file.people.map fun p => (p.1, p.2.getD nilKey)
  servers := file.servers.map fun p =>
    (p.1, p.2.elim ⟨"", nilKey⟩ fun info => ⟨info.address, info.publicKey.getD nilKey⟩)
  serverOrder := file.serverOrder
  entryServer := file.entryServer

/-- `main`: the services it starts.  `dial` is how `vrpc.Dial` ends at an address. -/
def serverMain (nilKey : BoxKey) (dial : String → Except String Unit) (pkiPath confPath : String)
    (pkiContents : Except String PKIFile) (confContents : Except String Conf) :
    Except Stop Config := do
  let file ← readPKI pkiPath pkiContents
  let conf ← readJSONFile confContents
  match conf.publicKey, conf.privateKey with
  | some _, some privateKey =>
      if conf.serverName = "" then .error (.missingFields confPath)
      else
        let pki := file.pki nilKey
        let services := mainConfig pki conf.serverName privateKey (UInt32.ofNat totalDialBuckets)
        let addr := pki.nextServer conf.serverName
        if addr = "" then .ok services
        else
          match dial addr with
          | .error err => .error (.dial err)
          | .ok () => .ok services
  | _, _ => .error (.missingFields confPath)

end Vuvuzela
