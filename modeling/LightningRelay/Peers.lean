import LightningRelay.Async.History

/-!
# Dialling peers

`do_connect_peer` and `connect_peer_if_necessary` of `cli/peer_cmds.rs`, the loop `reconnect_peers` of
`background.rs` and the task that the event `ConnectionNeeded` of `events.rs` spawns.

* `reconnect_dials`: whom the loop dials, and that it ends when it sees the stop flag and not before.  It
  looks at a node once and then dials every address of it, also after one of them has answered.
* `connection_needed_dials`: the task looks before every dial and ends with the first peer it sees.

The endless loops are cut off after some turns, by an operation that is never answered.
-/

set_option autoImplicit false

namespace LightningRelay

open Async

namespace Peers

abbrev NodeId := String

abbrev SocketAddr := String

/-- LDK's `SocketAddress`: an onion service, or an address or a name of another kind. -/
inductive SocketAddress where
  | onionV2 (host : String)
  | onionV3 (host : String)
  | clear (host : String)
  deriving DecidableEq, Repr

inductive Op where
  /-- The interval of one second. -/
  | tick
  /-- The nodes at the other end of the channels. -/
  | listChannels
  | peerByNodeId (node : NodeId)
  | stopLoad
  /-- The addresses that a node of the graph has announced. -/
  | announcedAddresses (node : NodeId)
  | toSocketAddrs (address : SocketAddress)
  | connectOutbound (node : NodeId) (addr : SocketAddr)
  /-- `tokio::select!`: the connection is closed before the time is over. -/
  | closedWithin (ms : ℕ)
  | println (line : String)
  /-- The turns of a loop that are left out. -/
  | further

@[reducible] def Op.Resp : Op → Type
  | .listChannels => List NodeId
  | .peerByNodeId _ | .stopLoad | .connectOutbound _ _ | .closedWithin _ => Bool
  | .announcedAddresses _ => Option (List SocketAddress)
  | .toSocketAddrs _ => Option (List SocketAddr)
  | .tick | .println _ => Unit
  | .further => Empty

abbrev Dialer := Prog Op Op.Resp

abbrev perform (o : Op) : Dialer o.Resp := Prog.perform o

def further {α : Type} : Dialer α := .op .further fun e => nomatch e

/-! ## The programs -/

/-- The wait for the handshake. -/
def waitForPeer (node : NodeId) : ℕ → Dialer Bool
  | 0 => further
  | turns + 1 => do
    match ← perform (.closedWithin 10) with
    | true => pure false
    | false =>
      match ← perform (.peerByNodeId node) with
      | true => pure true
      | false => waitForPeer node turns

def doConnectPeer (turns : ℕ) (node : NodeId) (addr : SocketAddr) : Dialer Bool := do
  match ← perform (.connectOutbound node addr) with
  | true => waitForPeer node turns
  | false => pure false

def connectPeerIfNecessary (turns : ℕ) (node : NodeId) (addr : SocketAddr) : Dialer Bool := do
  match ← perform (.peerByNodeId node) with
  | true => pure true
  | false =>
    match ← doConnectPeer turns node addr with
    | true => pure true
    | false =>
      perform (.println "ERROR: failed to connect to peer")
      pure false

def nonOnion : SocketAddress → Bool
  | .onionV2 _ | .onionV3 _ => false
  | .clear _ => true

/-- Every address that an announced address resolves to is dialled. -/
def dialAddress (turns : ℕ) (node : NodeId) (address : SocketAddress) : Dialer Unit := do
  match ← perform (.toSocketAddrs address) with
  | none => pure ()
  | some sockaddrs =>
    Prog.forEach (fun sockaddr => do
      let _ ← doConnectPeer turns node sockaddr
      pure ()) sockaddrs

def dialNode (turns : ℕ) (node : NodeId) : Dialer Unit := do
  let announced ← perform (.announcedAddresses node)
  Prog.forEach (dialAddress turns node) ((announced.getD []).filter nonOnion)

/-- One pass over the channels; the result says whether the loop is to stop. -/
def reconnectPass (turns : ℕ) : List NodeId → Dialer Bool
  | [] => pure false
  | node :: nodes => do
    match ← perform (.peerByNodeId node) with
    | true => reconnectPass turns nodes
    | false =>
      match ← perform .stopLoad with
      | true => pure true
      | false =>
        dialNode turns node
        reconnectPass turns nodes

def reconnectPeers (turns : ℕ) : ℕ → Dialer Unit
  | 0 => further
  | passes + 1 => do
    perform .tick
    let nodes ← perform .listChannels
    match ← reconnectPass turns nodes with
    | true => pure ()
    | false => reconnectPeers turns passes

/-- The resolved addresses in turn, until one has a peer. -/
def connectFirst (turns : ℕ) (node : NodeId) : List SocketAddr → Dialer Bool
  | [] => pure false
  | addr :: addrs => do
    match ← connectPeerIfNecessary turns node addr with
    | true => pure true
    | false => connectFirst turns node addrs

/-- The task of the event `ConnectionNeeded`. -/
def connectionNeeded (turns : ℕ) (node : NodeId) : List SocketAddress → Dialer Unit
  | [] => pure ()
  | address :: addresses => do
    match ← perform (.toSocketAddrs address) with
    | none => connectionNeeded turns node addresses
    | some sockaddrs =>
      match ← connectFirst turns node sockaddrs with
      | true => pure ()
      | false => connectionNeeded turns node addresses

/-! ## The loop -/

/-- A history, newest first. -/
abbrev History := List (Sigma Op.Resp)

variable {l l' l'' : History} {α : Type} {A : History → Op → Prop}

theorem obeys_further {Q : α → History → Prop} (h : A l .further) : (further : Dialer α).Obeys A Q l := by
  refine ⟨h, ?_⟩
  intro r
  cases r

/-- The nodes of the pass that is going on. -/
def channels : History → List NodeId
  | [] => []
  | ⟨.listChannels, nodes⟩ :: _ => nodes
  | _ :: l => channels l

/-- What was done in the pass that is going on. -/
def thisPass : History → History
  | [] => []
  | ⟨.listChannels, _⟩ :: _ => []
  | x :: l => x :: thisPass l

/-- The loop has not seen the stop flag. -/
def Running (l : History) : Prop := (⟨.stopLoad, true⟩ : Sigma Op.Resp) ∉ l

theorem Running.cons {x : Sigma Op.Resp} (h : Running l) (hx : (⟨.stopLoad, true⟩ : Sigma Op.Resp) ≠ x) :
    Running (x :: l) := by
  intro hm
  rcases List.mem_cons.1 hm with he | hm
  · exact hx he
  · exact h hm

/-- In this pass a channel with the node was listed and the node was found missing. -/
structure Missing (l : History) (node : NodeId) : Prop where
  channel : node ∈ channels l
  missing : (⟨.peerByNodeId node, false⟩ : Sigma Op.Resp) ∈ thisPass l

/-- The node has announced an address, which is not an onion service. -/
def Announced (l : History) (node : NodeId) (address : SocketAddress) : Prop :=
  ∃ addresses, (⟨.announcedAddresses node, some addresses⟩ : Sigma Op.Resp) ∈ thisPass l ∧
    address ∈ addresses ∧ nonOnion address = true

/-- What an announced address of a missing node was resolved to. -/
structure Dialable (l : History) (node : NodeId) (sockaddr : SocketAddr) : Prop extends Missing l node where
  resolved : ∃ address sockaddrs, Announced l node address ∧
    (⟨.toSocketAddrs address, some sockaddrs⟩ : Sigma Op.Resp) ∈ thisPass l ∧ sockaddr ∈ sockaddrs

/-- What the loop does. -/
def Reconnects (l : History) : Op → Prop
  | .connectOutbound node sockaddr => Dialable l node sockaddr ∧ Running l
  | .stopLoad => (∃ node, l.head? = some ⟨.peerByNodeId node, false⟩) ∧ Running l
  | _ => Running l

theorem Reconnects.running {o : Op} (h : Reconnects l o) : Running l := by
  cases o with
  | connectOutbound node sockaddr => exact h.2
  | stopLoad => exact h.2
  | _ => exact h

/-- The pass has gone on, and the loop runs. -/
structure Onwards (l l' : History) : Prop where
  channels : channels l' = channels l
  thisPass : thisPass l ⊆ thisPass l'
  running : Running l'

namespace Onwards

theorem refl (h : Running l) : Onwards l l := ⟨rfl, List.Subset.refl _, h⟩

theorem trans (h : Onwards l l') (h' : Onwards l' l'') : Onwards l l'' :=
  ⟨h'.channels.trans h.channels, List.Subset.trans h.thisPass h'.thisPass, h'.running⟩

theorem missing {node : NodeId} (h : Onwards l l') (hm : Missing l node) : Missing l' node :=
  ⟨h.channels ▸ hm.channel, h.thisPass hm.missing⟩

theorem announced {node : NodeId} {address : SocketAddress} (h : Onwards l l')
    (ha : Announced l node address) : Announced l' node address := by
  obtain ⟨addresses, hm, hrest⟩ := ha
  exact ⟨addresses, h.thisPass hm, hrest⟩

theorem dialable {node : NodeId} {sockaddr : SocketAddr} (h : Onwards l l')
    (hd : Dialable l node sockaddr) : Dialable l' node sockaddr := by
  obtain ⟨address, sockaddrs, ha, hm, hs⟩ := hd.resolved
  exact ⟨h.missing hd.toMissing, address, sockaddrs, h.announced ha, h.thisPass hm, hs⟩

end Onwards

/-- Neither the start of a pass nor a look at the stop flag. -/
def Op.inPass : Op → Bool
  | .listChannels | .stopLoad => false
  | _ => true

theorem Onwards.step {o : Op} {r : o.Resp} (h : Onwards l l') (ho : o.inPass = true) :
    Onwards l (⟨o, r⟩ :: l') := by
  cases o with
  | listChannels => cases ho
  | stopLoad => cases ho
  | _ =>
    refine ⟨h.channels, List.subset_cons_of_subset _ h.thisPass, h.running.cons ?_⟩
    intro he
    cases he

theorem Onwards.goesOn (h : Onwards l l') : Onwards l (⟨.stopLoad, false⟩ :: l') := by
  refine ⟨h.channels, List.subset_cons_of_subset _ h.thisPass, h.running.cons ?_⟩
  intro he
  cases he

theorem waitForPeer_reconnects {node : NodeId} (turns : ℕ) (h : Onwards l l') :
    (waitForPeer node turns).Obeys Reconnects (fun _ l'' => Onwards l l'') l' := by
  induction turns generalizing l' with
  | zero => exact obeys_further h.running
  | succ turns ih =>
    refine obeys_perform h.running fun closed => ?_
    cases closed with
    | true => exact obeys_pure (h.step rfl)
    | false =>
      refine obeys_perform (h.step rfl).running fun found => ?_
      cases found with
      | true => exact obeys_pure ((h.step rfl).step rfl)
      | false => exact ih ((h.step rfl).step rfl)

theorem doConnectPeer_reconnects {node : NodeId} {sockaddr : SocketAddr} (turns : ℕ)
    (hd : Dialable l node sockaddr) (hr : Running l) :
    (doConnectPeer turns node sockaddr).Obeys Reconnects (fun _ l' => Onwards l l') l := by
  refine obeys_perform ⟨hd, hr⟩ fun connected => ?_
  have h := (Onwards.refl hr).step (o := .connectOutbound node sockaddr) (r := connected) rfl
  cases connected with
  | true => exact waitForPeer_reconnects turns h
  | false => exact obeys_pure h

theorem dialAddress_reconnects {node : NodeId} {address : SocketAddress} (turns : ℕ)
    (hm : Missing l node) (ha : Announced l node address) (hr : Running l) :
    (dialAddress turns node address).Obeys Reconnects (fun _ l' => Onwards l l') l := by
  refine obeys_perform hr fun resolved => ?_
  have h := (Onwards.refl hr).step (o := .toSocketAddrs address) (r := resolved) rfl
  cases resolved with
  | none => exact obeys_pure h
  | some sockaddrs =>
    refine (obeys_forEach (J := Onwards (⟨.toSocketAddrs address, some sockaddrs⟩ :: l)) ?_
      (Onwards.refl h.running)).mono fun _ _ h' => h.trans h'
    intro sockaddr hs l' hl'
    have hd : Dialable (⟨.toSocketAddrs address, some sockaddrs⟩ :: l) node sockaddr :=
      ⟨h.missing hm, address, sockaddrs, h.announced ha, List.mem_cons_self, hs⟩
    exact (doConnectPeer_reconnects turns (hl'.dialable hd) hl'.running).bind fun _ _ h' =>
      obeys_pure (hl'.trans h')

theorem dialNode_reconnects {node : NodeId} (turns : ℕ) (hm : Missing l node) (hr : Running l) :
    (dialNode turns node).Obeys Reconnects (fun _ l' => Onwards l l') l := by
  refine obeys_perform hr fun announced => ?_
  have h := (Onwards.refl hr).step (o := .announcedAddresses node) (r := announced) rfl
  refine (obeys_forEach (J := Onwards (⟨.announcedAddresses node, announced⟩ :: l)) ?_
    (Onwards.refl h.running)).mono fun _ _ h' => h.trans h'
  intro address haddress l' hl'
  obtain ⟨hmem, hclear⟩ := List.mem_filter.1 haddress
  cases announced with
  | none => cases hmem
  | some addresses =>
    have ha : Announced (⟨.announcedAddresses node, some addresses⟩ :: l) node address :=
      ⟨addresses, List.mem_cons_self, hmem, hclear⟩
    exact (dialAddress_reconnects turns ((h.trans hl').missing hm) (hl'.announced ha) hl'.running).mono
      fun _ _ h' => hl'.trans h'

theorem reconnectPass_reconnects (turns : ℕ) (nodes : List NodeId) (hn : ∀ node ∈ nodes, node ∈ channels l)
    (hr : Running l) :
    (reconnectPass turns nodes).Obeys Reconnects (fun stopped l' => stopped = true ↔ ¬ Running l') l := by
  induction nodes generalizing l with
  | nil => exact obeys_pure (by simp [hr])
  | cons node nodes ih =>
    have hrest : ∀ {l' : History}, Onwards l l' → ∀ node ∈ nodes, node ∈ channels l' :=
      fun h node hm => h.channels ▸ hn node (List.mem_cons_of_mem _ hm)
    refine obeys_perform hr fun found => ?_
    have h₁ := (Onwards.refl hr).step (o := .peerByNodeId node) (r := found) rfl
    cases found with
    | true => exact ih (hrest h₁) h₁.running
    | false =>
      refine obeys_perform ⟨⟨node, rfl⟩, h₁.running⟩ fun stop => ?_
      cases stop with
      | true => exact obeys_pure (by simp [Running])
      | false =>
        have h₂ := h₁.goesOn
        have hm : Missing (⟨.stopLoad, false⟩ :: ⟨.peerByNodeId node, false⟩ :: l) node :=
          ⟨hn node List.mem_cons_self, List.mem_cons_of_mem _ List.mem_cons_self⟩
        exact (dialNode_reconnects turns hm h₂.running).bind fun _ _ h₃ =>
          ih (hrest (h₂.trans h₃)) h₃.running

theorem reconnectPeers_reconnects (turns passes : ℕ) (hr : Running l) :
    (reconnectPeers turns passes).Obeys Reconnects (fun _ l' => ¬ Running l') l := by
  induction passes generalizing l with
  | zero => exact obeys_further hr
  | succ passes ih =>
    refine obeys_perform hr fun _ => ?_
    have h₁ := ((Onwards.refl hr).step (o := .tick) (r := ()) rfl).running
    refine obeys_perform h₁ fun nodes => ?_
    have h₂ : Running (⟨.listChannels, nodes⟩ :: ⟨.tick, ()⟩ :: l) := by
      refine h₁.cons ?_
      intro he
      cases he
    have hn : ∀ node ∈ nodes, node ∈ channels (⟨.listChannels, nodes⟩ :: ⟨.tick, ()⟩ :: l) :=
      fun _ hm => hm
    refine (reconnectPass_reconnects turns nodes hn h₂).bind ?_
    intro stopped l' hstop
    cases stopped with
    | true => exact obeys_pure (hstop.1 rfl)
    | false => exact ih (by_contra fun h => Bool.false_ne_true (hstop.2 h))

/-- The loop dials a node only where in the same pass it has a channel with it, has found it missing, and
has resolved an address that the node announced and that is not an onion service.  It looks at the stop flag
only after a node was found missing, ends when it sees it, without another operation, and not before. -/
theorem reconnect_dials {turns passes : ℕ} {tr : List (Sigma Op.Resp)} {q : Dialer Unit}
    (h : (reconnectPeers turns passes).Replays tr q) :
    (∀ node sockaddr k, q = .op (.connectOutbound node sockaddr) k → Dialable tr.reverse node sockaddr) ∧
      (∀ k, q = .op .stopLoad k → ∃ node, tr.getLast? = some ⟨.peerByNodeId node, false⟩) ∧
      (q = .pure () ↔ (⟨.stopLoad, true⟩ : Sigma Op.Resp) ∈ tr) := by
  have hq := (reconnectPeers_reconnects turns passes (l := []) List.not_mem_nil).replays h
  rw [List.append_nil] at hq
  refine ⟨?_, ?_, ?_, ?_⟩
  · rintro node sockaddr k rfl
    exact hq.1.1
  · rintro k rfl
    obtain ⟨⟨node, hlast⟩, -⟩ := hq.1
    exact ⟨node, List.head?_reverse ▸ hlast⟩
  · rintro rfl
    by_contra hn
    exact hq fun hm => hn (List.mem_reverse.1 hm)
  · intro hm
    cases q with
    | pure a => rfl
    | op o k => exact absurd (List.mem_reverse.2 hm) hq.1.running

/-- A node that has just come up is dialled once more, at its second address. -/
theorem reconnect_dials_again : ∃ (tr : List (Sigma Op.Resp)) (q : Dialer Unit),
    (reconnectPeers 1 1).Replays tr q ∧ tr.getLast? = some ⟨.peerByNodeId "node", true⟩ ∧
    (∃ k, q = .op (.connectOutbound "node" "192.0.2.2:9735") k) ∧
    ((∀ node sockaddr k, q = .op (.connectOutbound node sockaddr) k → Dialable tr.reverse node sockaddr) ∧
      (∀ k, q = .op .stopLoad k → ∃ node, tr.getLast? = some ⟨.peerByNodeId node, false⟩) ∧
      (q = .pure () ↔ (⟨.stopLoad, true⟩ : Sigma Op.Resp) ∈ tr)) := by
  have h : (reconnectPeers 1 1).Replays [⟨.tick, ()⟩, ⟨.listChannels, ["node"]⟩,
      ⟨.peerByNodeId "node", false⟩, ⟨.stopLoad, false⟩, ⟨.announcedAddresses "node", some [.clear "host"]⟩,
      ⟨.toSocketAddrs (.clear "host"), some ["192.0.2.1:9735", "192.0.2.2:9735"]⟩,
      ⟨.connectOutbound "node" "192.0.2.1:9735", true⟩, ⟨.closedWithin 10, false⟩,
      ⟨.peerByNodeId "node", true⟩] _ :=
    .step (.step (.step (.step (.step (.step (.step (.step (.step .refl))))))))
  exact ⟨_, _, h, rfl, ⟨_, rfl⟩, reconnect_dials h⟩

/-! ## The task -/

/-- The task has not seen the peer. -/
def Unseen (node : NodeId) (l : History) : Prop := (⟨.peerByNodeId node, true⟩ : Sigma Op.Resp) ∉ l

/-- One of the addresses was resolved to this one. -/
def Resolved (addresses : List SocketAddress) (l : History) (sockaddr : SocketAddr) : Prop :=
  ∃ address ∈ addresses, ∃ sockaddrs,
    (⟨.toSocketAddrs address, some sockaddrs⟩ : Sigma Op.Resp) ∈ l ∧ sockaddr ∈ sockaddrs

/-- What the task does. -/
def Needs (node : NodeId) (addresses : List SocketAddress) (l : History) : Op → Prop
  | .connectOutbound node' sockaddr => node' = node ∧ l.head? = some ⟨.peerByNodeId node, false⟩ ∧
      Resolved addresses l sockaddr ∧ Unseen node l
  | _ => Unseen node l

/-- The history has grown, and a peer was seen just if the result says so. -/
structure Sought (node : NodeId) (l : History) (found : Bool) (l' : History) : Prop where
  grown : l ⊆ l'
  seen : found = true ↔ ¬ Unseen node l'

section

variable {node : NodeId} {addresses : List SocketAddress}

theorem Needs.unseen {o : Op} (h : Needs node addresses l o) : Unseen node l := by
  cases o with
  | connectOutbound node' sockaddr => exact h.2.2.2
  | _ => exact h

/-- An operation other than a look. -/
def Op.looks : Op → Bool
  | .peerByNodeId _ => true
  | _ => false

theorem Unseen.step {o : Op} {r : o.Resp} (h : Unseen node l) (ho : o.looks = false) :
    Unseen node (⟨o, r⟩ :: l) := by
  intro hm
  rcases List.mem_cons.1 hm with he | hm
  · cases he
    cases ho
  · exact h hm

theorem Unseen.missed (h : Unseen node l) : Unseen node (⟨.peerByNodeId node, false⟩ :: l) := by
  intro hm
  rcases List.mem_cons.1 hm with he | hm
  · cases he
  · exact h hm

theorem Sought.missed {l' : History} (hl : l ⊆ l') (hu : Unseen node l') : Sought node l false l' :=
  ⟨hl, by simp [hu]⟩

theorem Sought.found {l' : History} (hl : l ⊆ l') :
    Sought node l true (⟨.peerByNodeId node, true⟩ :: l') :=
  ⟨List.subset_cons_of_subset _ hl, by simp [Unseen]⟩

theorem Sought.unseen {l' : History} (h : Sought node l false l') : Unseen node l' :=
  by_contra fun hn => Bool.false_ne_true (h.seen.2 hn)

theorem waitForPeer_needs (turns : ℕ) (hl : l ⊆ l') (hu : Unseen node l') :
    (waitForPeer node turns).Obeys (Needs node addresses) (Sought node l) l' := by
  induction turns generalizing l' with
  | zero => exact obeys_further hu
  | succ turns ih =>
    refine obeys_perform hu fun closed => ?_
    have hu₁ : Unseen node (⟨.closedWithin 10, closed⟩ :: l') := hu.step rfl
    have hl₁ : l ⊆ ⟨.closedWithin 10, closed⟩ :: l' := List.subset_cons_of_subset _ hl
    cases closed with
    | true => exact obeys_pure (.missed hl₁ hu₁)
    | false =>
      refine obeys_perform hu₁ fun found => ?_
      cases found with
      | true => exact obeys_pure (.found hl₁)
      | false => exact ih (List.subset_cons_of_subset _ hl₁) hu₁.missed

theorem doConnectPeer_needs {sockaddr : SocketAddr} (turns : ℕ)
    (hhead : l.head? = some ⟨.peerByNodeId node, false⟩) (hs : Resolved addresses l sockaddr)
    (hu : Unseen node l) :
    (doConnectPeer turns node sockaddr).Obeys (Needs node addresses) (Sought node l) l := by
  refine obeys_perform ⟨rfl, hhead, hs, hu⟩ fun connected => ?_
  have hu₁ : Unseen node (⟨.connectOutbound node sockaddr, connected⟩ :: l) := hu.step rfl
  cases connected with
  | true => exact waitForPeer_needs turns (List.subset_cons_self _ _) hu₁
  | false => exact obeys_pure (.missed (List.subset_cons_self _ _) hu₁)

theorem Resolved.mono {sockaddr : SocketAddr} (h : Resolved addresses l sockaddr) (hl : l ⊆ l') :
    Resolved addresses l' sockaddr := by
  obtain ⟨address, ha, sockaddrs, hm, hs⟩ := h
  exact ⟨address, ha, sockaddrs, hl hm, hs⟩

theorem connectPeerIfNecessary_needs {sockaddr : SocketAddr} (turns : ℕ)
    (hs : Resolved addresses l sockaddr) (hu : Unseen node l) :
    (connectPeerIfNecessary turns node sockaddr).Obeys (Needs node addresses) (Sought node l) l := by
  refine obeys_perform hu fun found => ?_
  cases found with
  | true => exact obeys_pure (.found (List.Subset.refl _))
  | false =>
    refine (doConnectPeer_needs turns rfl (hs.mono (List.subset_cons_self _ _)) hu.missed).bind ?_
    intro connected l' h
    have hl : l ⊆ l' := List.Subset.trans (List.subset_cons_self _ _) h.grown
    cases connected with
    | true => exact obeys_pure ⟨hl, h.seen⟩
    | false =>
      exact obeys_perform h.unseen fun _ =>
        obeys_pure (.missed (List.subset_cons_of_subset _ hl) (h.unseen.step rfl))

theorem connectFirst_needs (turns : ℕ) (sockaddrs : List SocketAddr)
    (hs : ∀ sockaddr ∈ sockaddrs, Resolved addresses l sockaddr) (hu : Unseen node l) :
    (connectFirst turns node sockaddrs).Obeys (Needs node addresses) (Sought node l) l := by
  induction sockaddrs generalizing l with
  | nil => exact obeys_pure (.missed (List.Subset.refl _) hu)
  | cons sockaddr sockaddrs ih =>
    refine (connectPeerIfNecessary_needs turns (hs sockaddr List.mem_cons_self) hu).bind ?_
    intro connected l' h
    cases connected with
    | true => exact obeys_pure h
    | false =>
      refine (ih (fun s hm => (hs s (List.mem_cons_of_mem _ hm)).mono h.grown) h.unseen).mono ?_
      exact fun _ _ h' => ⟨List.Subset.trans h.grown h'.grown, h'.seen⟩

theorem connectionNeeded_needs (turns : ℕ) (rest : List SocketAddress) (hrest : rest ⊆ addresses)
    (hu : Unseen node l) :
    (connectionNeeded turns node rest).Obeys (Needs node addresses) (fun _ _ => True) l := by
  induction rest generalizing l with
  | nil => exact obeys_pure trivial
  | cons address rest ih =>
    have hrest' := List.Subset.trans (List.subset_cons_self address rest) hrest
    refine obeys_perform hu fun resolved => ?_
    have hu₁ : Unseen node (⟨.toSocketAddrs address, resolved⟩ :: l) := hu.step rfl
    cases resolved with
    | none => exact ih hrest' hu₁
    | some sockaddrs =>
      refine (connectFirst_needs turns sockaddrs (fun s hs => ?_) hu₁).bind ?_
      · exact ⟨address, hrest List.mem_cons_self, sockaddrs, List.mem_cons_self, hs⟩
      · intro connected l' h
        cases connected with
        | true => exact obeys_pure trivial
        | false => exact ih hrest' h.unseen

end

/-- The task of `ConnectionNeeded` dials only the node of its event, at what one of the event's addresses
was resolved to, and each time it has just looked and not seen the peer.  Once it has seen the peer it does
nothing more. -/
theorem connection_needed_dials {turns : ℕ} {node : NodeId} {addresses : List SocketAddress}
    {tr : List (Sigma Op.Resp)} {q : Dialer Unit} (h : (connectionNeeded turns node addresses).Replays tr q) :
    (∀ node' sockaddr k, q = .op (.connectOutbound node' sockaddr) k → node' = node ∧
      tr.getLast? = some ⟨.peerByNodeId node, false⟩ ∧ Resolved addresses tr sockaddr) ∧
      ((⟨.peerByNodeId node, true⟩ : Sigma Op.Resp) ∈ tr → q = .pure ()) := by
  have hneeds : (connectionNeeded turns node addresses).Obeys (Needs node addresses) (fun _ _ => True) [] :=
    connectionNeeded_needs turns addresses (List.Subset.refl _) List.not_mem_nil
  have hq := hneeds.replays h
  rw [List.append_nil] at hq
  refine ⟨?_, ?_⟩
  · rintro node' sockaddr k rfl
    obtain ⟨hnode, hlast, hs, -⟩ := hq.1
    exact ⟨hnode, List.head?_reverse ▸ hlast, hs.mono fun x hx => List.mem_reverse.1 hx⟩
  · intro hm
    cases q with
    | pure a => rfl
    | op o k => exact absurd (List.mem_reverse.2 hm) hq.1.unseen

/-- The first address closes the connection, and the second one is dialled. -/
theorem connection_needed_dials_second : ∃ (tr : List (Sigma Op.Resp)) (q : Dialer Unit),
    (connectionNeeded 1 "node" [.clear "host"]).Replays tr q ∧
    (∃ k, q = .op (.connectOutbound "node" "192.0.2.2:9735") k) ∧
    ((∀ node' sockaddr k, q = .op (.connectOutbound node' sockaddr) k → node' = "node" ∧
      tr.getLast? = some ⟨.peerByNodeId "node", false⟩ ∧ Resolved [.clear "host"] tr sockaddr) ∧
      ((⟨.peerByNodeId "node", true⟩ : Sigma Op.Resp) ∈ tr → q = .pure ())) := by
  have h : (connectionNeeded 1 "node" [.clear "host"]).Replays
      [⟨.toSocketAddrs (.clear "host"), some ["192.0.2.1:9735", "192.0.2.2:9735"]⟩,
        ⟨.peerByNodeId "node", false⟩, ⟨.connectOutbound "node" "192.0.2.1:9735", true⟩,
        ⟨.closedWithin 10, true⟩, ⟨.println "ERROR: failed to connect to peer", ()⟩,
        ⟨.peerByNodeId "node", false⟩] _ :=
    .step (.step (.step (.step (.step (.step .refl)))))
  exact ⟨_, _, h, ⟨_, rfl⟩, connection_needed_dials h⟩

end Peers

end LightningRelay
