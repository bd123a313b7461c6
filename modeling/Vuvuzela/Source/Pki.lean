import Vuvuzela.Source.Wire

/-!
# Source — the chain of servers

`pki.go`: who the servers are, in which order, and what each of them derives from its place in
the order.
-/

namespace Vuvuzela

structure ServerInfo where
  address : String
  publicKey : BoxKey

/-- `PKI`; Go's maps are association lists. -/
structure PKI where
  people : List (String × BoxKey)
  servers : List (String × ServerInfo)
  serverOrder : List String
  entryServer : String

namespace PKI

variable (pki : PKI)

/-- `pki.Servers[s]`.  `ReadPKI` refuses an order that names an unknown server. -/
def serverInfo (s : String) : ServerInfo := (pki.servers.lookup s).getD ⟨"", Block.zero 32⟩

/-- The public key of a server. -/
def publicKey (s : String) : BoxKey := (pki.serverInfo s).publicKey

def serverKeys : List BoxKey := pki.serverOrder.map pki.publicKey

/-- `Index`: the first place of the name.  The loop variable keeps the last place when the name
is not there. -/
def index (serverName : String) : Nat :=
  match pki.serverOrder.findIdx? (· == serverName) with
  | some i => i
  | none => pki.serverOrder.length - 1

/-- `NextServer`, the address; empty for the last place. -/
def nextServer (serverName : String) : String :=
  let i := pki.index serverName
  if i < pki.serverOrder.length - 1 then (pki.serverInfo (pki.serverOrder.getD (i + 1) "")).address
  else ""

/-- `NextServerKeys`: the keys of the later servers. -/
def nextServerKeys (serverName : String) : List BoxKey :=
  (pki.serverOrder.drop (pki.index serverName + 1)).map pki.publicKey

def incomingOnionOverhead (serverName : String) : Nat :=
  (pki.serverOrder.length - pki.index serverName) * Onionbox.overhead

def outgoingOnionOverhead (serverName : String) : Nat :=
  (pki.serverOrder.length - pki.index serverName) * boxOverhead

variable {pki}

/-- In an order without repetitions, a server's index is its place. -/
theorem index_eq {pre post : List String} {s : String} (horder : pki.serverOrder = pre ++ s :: post)
    (hnodup : pki.serverOrder.Nodup) : pki.index s = pre.length := by
  have hs : s ∉ pre := by
    rw [horder, List.nodup_append] at hnodup
    exact fun h => hnodup.2.2 s h s List.mem_cons_self rfl
  have hfind : pki.serverOrder.findIdx? (· == s) = some pre.length := by
    rw [List.findIdx?_eq_some_iff_getElem]
    refine ⟨by simp [horder], by simp [horder], fun j hj => ?_⟩
    simp only [horder, List.getElem_append_left hj, beq_iff_eq]
    exact fun e => hs (e ▸ List.getElem_mem hj)
  rw [index, hfind]

theorem nextServerKeys_eq {pre post : List String} {s : String}
    (horder : pki.serverOrder = pre ++ s :: post) (hnodup : pki.serverOrder.Nodup) :
    pki.nextServerKeys s = post.map pki.publicKey := by
  rw [nextServerKeys, index_eq horder hnodup, horder]
  simp

theorem incomingOnionOverhead_eq {pre post : List String} {s : String}
    (horder : pki.serverOrder = pre ++ s :: post) (hnodup : pki.serverOrder.Nodup) :
    pki.incomingOnionOverhead s = (post.length + 1) * Onionbox.overhead := by
  rw [incomingOnionOverhead, index_eq horder hnodup, horder]
  simp

theorem outgoingOnionOverhead_eq {pre post : List String} {s : String}
    (horder : pki.serverOrder = pre ++ s :: post) (hnodup : pki.serverOrder.Nodup) :
    pki.outgoingOnionOverhead s = (post.length + 1) * boxOverhead := by
  rw [outgoingOnionOverhead, index_eq horder hnodup, horder]
  simp

end PKI

end Vuvuzela
