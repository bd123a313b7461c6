import Vuvuzela.Source.Main

/-!
# Chain — the role of a server

What a server does in the chain follows from `PKI.index`: which server it connects to, whose keys
it seals for, how large the onions are that it takes, and whether it is the last.  The loop behind
`index` stops at the first place of a name and keeps the last place when there is none.

`serverMain_takesRole_iff` says which names take the role of their place: those that stand in the
order exactly once.  A name that is not there starts as the last server, and one that stands there
twice, the second time at the end, does not (`strangers_start_last`).
-/

namespace Vuvuzela

/-! ### What `ReadPKI` accepts -/

/-- A server with an address. -/
def Addressed (servers : List (String × Option ServerEntry)) (s : String) : Prop :=
  ∃ info, servers.lookup s = some (some info) ∧ info.address ≠ ""

theorem withPort_ne_empty {addr : String} (h : addr ≠ "") : withPort addr ≠ "" := by
  rw [withPort]
  split
  · exact h
  · simp

theorem lookup_setAddress (s addr t : String) :
    ∀ servers : List (String × Option ServerEntry),
      (setAddress s addr servers).lookup t =
        (servers.lookup t).map fun info =>
          if t = s then info.map ({ · with address := addr }) else info
  | [] => rfl
  | (name, info) :: servers => by
      rw [setAddress, List.map_cons, ← setAddress, List.lookup_cons, List.lookup_cons,
        lookup_setAddress s addr t servers]
      by_cases h : t = name
      · simp [h]
      · simp [beq_false_of_ne h]

theorem Addressed.setAddress {servers : List (String × Option ServerEntry)} {t : String}
    (h : Addressed servers t) {addr : String} (haddr : addr ≠ "") (s : String) :
    Addressed (setAddress s addr servers) t := by
  obtain ⟨info, hinfo, hne⟩ := h
  rw [Addressed, lookup_setAddress, hinfo]
  by_cases hs : t = s
  · exact ⟨{ info with address := addr }, by simp [hs], haddr⟩
  · exact ⟨info, by simp [hs], hne⟩

/-- The loop keeps addresses, and leaves none of its servers without one. -/
theorem readServers_addressed {jsonPath : String} :
    ∀ {order : List String} {servers servers' : List (String × Option ServerEntry)},
      readServers jsonPath order servers = .ok servers' →
        (∀ s, Addressed servers s → Addressed servers' s) ∧ ∀ s ∈ order, Addressed servers' s
  | [], servers, servers', h => by
      cases h
      exact ⟨fun s hs => hs, fun s hs => nomatch hs⟩
  | s :: order, servers, servers', h => by
      rw [readServers] at h
      split at h
      · cases h
      · cases h
      · rename_i info hinfo
        split at h
        · cases h
        · rename_i hne
          obtain ⟨hkeep, hall⟩ := readServers_addressed h
          have hport := withPort_ne_empty hne
          refine ⟨fun t ht => hkeep t (ht.setAddress hport s), ?_⟩
          rintro t (_ | ⟨_, ht⟩)
          · exact hkeep s (Addressed.setAddress ⟨info, hinfo, hne⟩ hport s)
          · exact hall t ht

theorem lookup_pki_servers (nilKey : BoxKey) (file : PKIFile) (s : String) :
    (file.pki nilKey).servers.lookup s = (file.servers.lookup s).map fun info =>
      info.elim ⟨"", nilKey⟩ fun info => ⟨info.address, info.publicKey.getD nilKey⟩ := by
  simp only [PKIFile.pki]
  induction file.servers with
  | nil => rfl
  | cons p servers ih =>
      rw [List.map_cons, List.lookup_cons, List.lookup_cons, ih]
      cases s == p.1 <;> rfl

/-- Every server of an order that `ReadPKI` accepts has an address. -/
theorem readPKI_addresses {jsonPath : String} {contents : Except String PKIFile} {file : PKIFile}
    (h : readPKI jsonPath contents = .ok file) (nilKey : BoxKey) {s : String}
    (hs : s ∈ file.serverOrder) : ((file.pki nilKey).serverInfo s).address ≠ "" := by
  cases contents with
  | error err => cases h
  | ok raw =>
      change (if raw.serverOrder = [] then _ else _) = _ at h
      split at h
      · cases h
      · cases hread : readServers jsonPath raw.serverOrder raw.servers with
        | error stop =>
            rw [hread] at h
            cases h
        | ok servers =>
            rw [hread] at h
            cases h
            obtain ⟨info, hinfo, hne⟩ := (readServers_addressed hread).2 s hs
            rw [PKI.serverInfo, lookup_pki_servers, hinfo]
            exact hne

/-! ### Places in the order -/

/-- What the services take from the PKI for `serverName` is that of place `i`: the address of the
next server, the keys of all later ones, a layer for itself and each of them. -/
structure HasPlace (pki : PKI) (serverName : String) (i : Nat) : Prop where
  nextServer : pki.nextServer serverName =
    (pki.serverOrder[i + 1]?.map fun s => (pki.serverInfo s).address).getD ""
  nextServerKeys : pki.nextServerKeys serverName =
    (pki.serverOrder.drop (i + 1)).map pki.publicKey
  incoming : pki.incomingOnionOverhead serverName =
    (pki.serverOrder.length - i) * Onionbox.overhead
  outgoing : pki.outgoingOnionOverhead serverName = (pki.serverOrder.length - i) * boxOverhead

/-- Every name gets the place of its index, whether it stands there or not. -/
theorem hasPlace_index (pki : PKI) (serverName : String) :
    HasPlace pki serverName (pki.index serverName) where
  nextServer := by
    rw [PKI.nextServer]
    by_cases h : pki.index serverName + 1 < pki.serverOrder.length
    · rw [if_pos (by omega), List.getD_eq_getElem?_getD, List.getElem?_eq_getElem h]
      rfl
    · rw [if_neg (by omega), List.getElem?_eq_none (by omega)]
      rfl
  nextServerKeys := rfl
  incoming := rfl
  outgoing := rfl

/-- No name has two places: the sizes tell them apart. -/
theorem HasPlace.eq_index {pki : PKI} {serverName : String} {i : Nat}
    (h : HasPlace pki serverName i) (hi : i < pki.serverOrder.length) :
    i = pki.index serverName := by
  have hsize := h.outgoing
  have hpos : 0 < boxOverhead := by decide
  rw [PKI.outgoingOnionOverhead, Nat.mul_right_cancel_iff hpos] at hsize
  omega

/-- A name of the order stands at its index. -/
theorem getElem?_index {pki : PKI} {serverName : String} (h : serverName ∈ pki.serverOrder) :
    pki.serverOrder[pki.index serverName]? = some serverName := by
  cases hfind : pki.serverOrder.findIdx? (· == serverName) with
  | none =>
      have hnot := List.findIdx?_eq_none_iff.mp hfind serverName h
      rw [beq_self_eq_true] at hnot
      cases hnot
  | some i =>
      obtain ⟨hi, heq, -⟩ := List.findIdx?_eq_some_iff_getElem.mp hfind
      rw [PKI.index, hfind, List.getElem?_eq_getElem hi, beq_iff_eq.mp heq]

/-! ### Roles -/

/-- A server that does what its place in the order gives it to do. -/
structure TakesRole (services : Config) : Prop where
  listed : services.serverName ∈ services.pki.serverOrder
  last : services.lastServer = true ↔
    services.pki.serverOrder.getLast? = some services.serverName
  place : ∀ i, services.pki.serverOrder[i]? = some services.serverName →
    HasPlace services.pki services.serverName i

/-- Where every server has an address, the roles taken are those of the names that stand in the
order exactly once. -/
theorem mainConfig_takesRole_iff {pki : PKI} {serverName : String} {privateKey : BoxKey}
    {buckets : UInt32} (haddr : ∀ s ∈ pki.serverOrder, (pki.serverInfo s).address ≠ "") :
    TakesRole (mainConfig pki serverName privateKey buckets) ↔
      ∃! i : Nat, pki.serverOrder[i]? = some serverName := by
  constructor
  · intro h
    have hindex : pki.serverOrder[pki.index serverName]? = some serverName :=
      getElem?_index h.listed
    refine ⟨_, hindex, fun i hi => ?_⟩
    exact (h.place i hi).eq_index (List.getElem?_eq_some_iff.mp hi).1
  · rintro ⟨i, hi, hunique⟩
    have hmem : serverName ∈ pki.serverOrder := List.mem_of_getElem? hi
    have hindex : pki.index serverName = i := hunique _ (getElem?_index hmem)
    have hplace : HasPlace pki serverName i := hindex ▸ hasPlace_index pki serverName
    have hlen : i < pki.serverOrder.length := (List.getElem?_eq_some_iff.mp hi).1
    refine ⟨hmem, ?_, fun j hj => ?_⟩
    · -- there is a next address exactly when there is a next place
      change decide (pki.nextServer serverName = "") = true ↔
        pki.serverOrder.getLast? = some serverName
      rw [decide_eq_true_iff, hplace.nextServer, List.getLast?_eq_getElem?]
      by_cases hnext : i + 1 < pki.serverOrder.length
      · rw [List.getElem?_eq_getElem hnext]
        refine iff_of_false (haddr _ (List.getElem_mem hnext)) fun hlast => ?_
        have := hunique _ hlast
        omega
      · rw [List.getElem?_eq_none (by omega)]
        refine iff_of_true rfl ?_
        rwa [show pki.serverOrder.length - 1 = i by omega]
    · rw [hunique j hj]
      exact hplace

/-- What `main` starts was configured by a PKI that `ReadPKI` accepts. -/
theorem serverMain_ok {nilKey : BoxKey} {dial : String → Except String Unit}
    {pkiPath confPath : String} {pkiContents : Except String PKIFile}
    {confContents : Except String Conf} {services : Config}
    (h : serverMain nilKey dial pkiPath confPath pkiContents confContents = .ok services) :
    ∃ file conf privateKey, readPKI pkiPath pkiContents = .ok file ∧ confContents = .ok conf ∧
      services = mainConfig (file.pki nilKey) conf.serverName privateKey
        (UInt32.ofNat totalDialBuckets) := by
  rw [serverMain] at h
  cases hfile : readPKI pkiPath pkiContents with
  | error stop =>
      rw [hfile] at h
      cases h
  | ok file =>
      cases confContents with
      | error err =>
          rw [hfile] at h
          cases h
      | ok conf =>
          obtain ⟨name, publicKey, privateKey⟩ := conf
          rw [hfile] at h
          cases publicKey with
          | none => cases h
          | some publicKey =>
              cases privateKey with
              | none => cases h
              | some privateKey =>
                  refine ⟨file, _, privateKey, rfl, rfl, ?_⟩
                  simp only [bind, Except.bind, readJSONFile] at h
                  split at h
                  · cases h
                  · split at h
                    · exact (Except.ok.inj h).symm
                    · split at h
                      · cases h
                      · exact (Except.ok.inj h).symm

/-- **The roles of the servers.**  The services `main` starts take the role of their server's
place in the order exactly when the server's name stands in it exactly once. -/
theorem serverMain_takesRole_iff {nilKey : BoxKey} {dial : String → Except String Unit}
    {pkiPath confPath : String} {pkiContents : Except String PKIFile}
    {confContents : Except String Conf} {services : Config}
    (h : serverMain nilKey dial pkiPath confPath pkiContents confContents = .ok services) :
    TakesRole services ↔ ∃! i : Nat, services.pki.serverOrder[i]? = some services.serverName := by
  obtain ⟨file, conf, privateKey, hfile, -, rfl⟩ := serverMain_ok h
  exact mainConfig_takesRole_iff fun s hs => readPKI_addresses hfile nilKey hs

/-! ### Two servers -/

/-- The servers of `pki_test.go`, and an order of them. -/
def rolesFile (order : List String) : PKIFile where
  people := []
  servers := [("openstack1", some ⟨"localhost", some (Block.zero 32)⟩),
    ("openstack2", some ⟨"localhost:2719", some (Block.zero 32)⟩)]
  serverOrder := order
  entryServer := ""

/-- The services of a server of that file, where every address answers. -/
def rolesMain (order : List String) (serverName : String) : Except Stop Config :=
  serverMain (Block.zero 32) (fun _ => .ok ()) "pki.conf" "server.conf" (.ok (rolesFile order))
    (.ok ⟨serverName, some (Block.zero 32), some (Block.zero 32)⟩)

theorem serverMain_takesRole_first :
    ∃ services, rolesMain ["openstack1", "openstack2"] "openstack1" = .ok services ∧
      TakesRole services := by
  have h : rolesMain ["openstack1", "openstack2"] "openstack1" = .ok _ := rfl
  refine ⟨_, h, (serverMain_takesRole_iff h).mpr ⟨0, rfl, fun i hi => ?_⟩⟩
  match i, hi with
  | 0, _ => rfl
  | 1, hi =>
      have hname : "openstack2" = "openstack1" := Option.some.inj hi
      exact absurd hname (by decide)
  | i + 2, hi => cases hi

/-- A name that is not in the order gets the last place and starts as the last server.  A name
that stands at the first place and again at the last does not. -/
theorem strangers_start_last :
    (∃ services, rolesMain ["openstack1", "openstack2"] "openstack3" = .ok services ∧
      services.serverName ∉ services.pki.serverOrder ∧ services.lastServer = true ∧
      HasPlace services.pki services.serverName 1) ∧
    ∃ services, rolesMain ["openstack1", "openstack2", "openstack1"] "openstack1" = .ok services ∧
      services.pki.serverOrder.getLast? = some services.serverName ∧
      services.lastServer = false ∧ HasPlace services.pki services.serverName 0 := by
  refine ⟨⟨_, rfl, by decide, rfl, ?_⟩, ⟨_, rfl, rfl, rfl, ?_⟩⟩
  · exact hasPlace_index _ "openstack3"
  · exact hasPlace_index _ "openstack1"

end Vuvuzela
