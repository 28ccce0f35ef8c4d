import LeKV.Cli.Commands
import LeKV.Kv.OneMap
import LeKV.Kv.Readers

/-!
# Clients, the Master and the DataNodes together

The network that a client runs in: addresses lead to the Master or to a DataNode, whose servers answer
what arrives. `run_command` is one command of a client while the network is calm, in front of any stores
and any routing table that the client can read.
-/

namespace LeKV

open Bytes BinaryProtocol Text

/-! ## The Master as a server -/

/-- `RaftNode::HandleBinaryRequest` on the Master. -/
def Master.handleBinaryRequest (peers : List PeerInfo) : BinaryHandler Master := fun _ payload m =>
  match payload with
  | [] => some ([ST_BAD_REQUEST], m)
  | opcode :: _ =>
    if opcode = OP_GET_ROUTE then (handleMasterGetRoute peers m payload).map fun resp => (resp, m)
    else if opcode = OP_SHARDS then some (handleMasterShards peers m.tablets, m)
    else some ([ST_BAD_REQUEST], m)

/-- What the Master answers to the bytes of one connection. -/
def Master.serve (peers : List PeerInfo) (m : Master) (data : Bytes) : Bytes :=
  ((serveBytes (Master.handleBinaryRequest peers) m data []).calls.map Call.response).flatten

theorem Master.serve_request {peers : List PeerInfo} {m m' : Master} {reqId : UInt32}
    {payload resp : Bytes} (hfit : 10 + payload.length < 2 ^ 32)
    (hh : Master.handleBinaryRequest peers reqId payload m = some (resp, m')) :
    m.serve peers (encodeCustomRequest reqId payload) = packResponse reqId resp := by
  rw [Master.serve, serveBytes_one hfit hh]
  simp

theorem encodeRequest_eq_custom (reqId : UInt32) (opcode : UInt8) {key value : Bytes}
    (hkey : key.length < 2 ^ 16) (hfit : 17 + key.length + value.length < 2 ^ 32) :
    encodeRequest reqId opcode key value = encodeCustomRequest reqId (kvPayload opcode key value) := by
  rw [encodeRequest_eq reqId opcode hkey hfit, encodeCustomRequest_eq]
  rw [length_kvPayload]
  omega

/-! ## The network -/

/-- Who listens at an address. -/
inductive Party where
  | master
  | node (id : UInt32)
deriving DecidableEq, Repr

/-- The configured peers, and who listens where. -/
structure Network where
  peers : List PeerInfo
  listens : Bytes → UInt16 → Option Party

/-- One end of a connection: who is at the other end, if anybody, and the client's side. -/
structure Link where
  party : Option Party
  conn : Connection

/-- The connections of one client. -/
abbrev Links : Type := Peer → Link

namespace Network

variable (net : Network)

/-- What a server answers to the bytes it receives, and what this does to its store. -/
def serve (p : Party) (data : Bytes) (w : World) : Bytes × World :=
  match p with
  | .master => (w.1.serve net.peers data, w)
  | .node id =>
    let served := (w.2.nodes id).serve data
    (served.1, (w.1, { w.2 with nodes := Function.update w.2.nodes id served.2 }))

/-- The receive buffer that a connection starts with: `Close` does not clear it, but the client to a
DataNode is a new one for each request. -/
def keptBuf (links : Links) : Peer → Bytes
  | .proxy => (links .proxy).conn.buf
  | .dataNode => []

/-- The network as the environment of one client. A socket whose `connect` failed stays open. -/
def env : CliEnvironment (World × Links) where
  isConnected s := (s.2 .proxy).conn.connected
  connect peer ip port s :=
    ((net.listens ip port).isSome, (s.1, Function.update s.2 peer
      ⟨net.listens ip port, { Connection.fresh with buf := keptBuf s.2 peer }⟩))
  send peer data s :=
    match (s.2 peer).party with
    | none => (false, s)
    | some p =>
      let c := (s.2 peer).conn
      (c.sendOutcome.ok,
        if c.sendOutcome.executed then
          ((net.serve p data s.1).2,
            Function.update s.2 peer ⟨some p, c.send.answer (net.serve p data s.1).1⟩)
        else (s.1, Function.update s.2 peer ⟨some p, c.send⟩))
  recvFrame peer t s :=
    (((s.2 peer).conn.recvFrame t).1,
      (s.1, Function.update s.2 peer ⟨(s.2 peer).party, ((s.2 peer).conn.recvFrame t).2⟩))
  close peer s :=
    (s.1, Function.update s.2 peer
      ⟨none, { Connection.fresh with connected := false, buf := keptBuf s.2 peer }⟩)

end Network

/-! ## Exchanges while the network is calm -/

/-- A link on which requests reach `p` and are answered in time. -/
structure Link.Calm (link : Link) (p : Party) : Prop where
  party : link.party = some p
  connected : link.conn.connected = true
  quiet : link.conn.Quiet

section Exchange

variable {net : Network} {links : Links} {peer : Peer} {p : Party} {w w' : World} {c : LekvCli}

/-- A response that fits a frame is decoded. -/
theorem tryDecode_packResponse (reqId : UInt32) (status : UInt8) {value : Bytes}
    (hfits : 15 + value.length < 2 ^ 32) :
    ∃ n, tryDecode (packResponse reqId (status :: value))
      = some (.ok n reqId (status :: (be 4 value.length ++ value))) := by
  have hlen : 10 + (status :: (be 4 value.length ++ value)).length < 2 ^ 32 := by
    simp only [List.length_cons, List.length_append, length_be]
    omega
  have hpack : packResponse reqId (status :: value)
      = frame (10 + (status :: (be 4 value.length ++ value)).length) reqId
          (status :: (be 4 value.length ++ value)) := encodeResponse_eq reqId status hfits
  exact ⟨_, hpack ▸ tryDecode_frame reqId hlen⟩

/-- A request on a calm link brings back the server's response. -/
theorem run_sendAndRecv_calm (hcalm : (links peer).Calm p) {req value : Bytes} {reqId : UInt32}
    {status : UInt8} (hserve : net.serve p req w = (packResponse reqId (status :: value), w'))
    (hfits : 15 + value.length < 2 ^ 32) :
    ∃ link : Link, link.Calm p ∧ ∀ c, net.env.run (Cli.sendAndRecv peer req) (c, (w, links))
      = (some (some (reqId, status :: (be 4 value.length ++ value))),
          (c, (w', Function.update links peer link))) := by
  obtain ⟨n, hdec⟩ := tryDecode_packResponse reqId status hfits
  obtain ⟨hlen, hwhole⟩ := packResponse_whole reqId status hfits
  have hreply := isReply_packResponse reqId (status :: value)
  generalize packResponse reqId (status :: value) = reply at hserve hdec hlen hwhole hreply
  have hquiet := hcalm.quiet
  have hdel := hquiet.delivers (by omega) hwhole
  have hadvanced := advanced_exchange hquiet.pending hdel hreply hwhole 5000
  have hframe := received_exchange hquiet.pending hdel hreply hwhole 5000
  refine ⟨⟨some p, ((links peer).conn.send.answer reply).recvFrame 5000 |>.2⟩,
    ⟨rfl, hadvanced.connected.trans hcalm.connected, hadvanced.quiet hquiet⟩, fun c => ?_⟩
  have hsend : net.env.send peer req (w, links)
      = (true, (w', Function.update links peer ⟨some p, (links peer).conn.send.answer reply⟩)) := by
    simp only [Network.env, hcalm.party, hquiet.sendOutcome, if_true, hserve]
  refine CliEnvironment.run_sendAndRecv hsend ?_ hdec
  simp only [Network.env, Function.update_self, hframe, Function.update_idem]

end Exchange

/-- A client whose Proxy address leads to the Master, with a calm connection to it or with none yet. -/
structure CalmClient (net : Network) (c : LekvCli) (links : Links) : Prop where
  listens : net.listens c.masterIp c.masterPort = some .master
  proxy : (links .proxy).Calm .master ∨
    (links .proxy).conn.connected = false ∧ (links .proxy).conn.buf = []

/-- The addresses that the Master names lead to the DataNodes. -/
structure Configured (net : Network) : Prop where
  peers : ConfiguredPeers net.peers
  listens : ∀ node ∈ dataNodes net.peers, ∀ p,
    net.peers.find? (fun p => p.id = node.toUInt64) = some p → net.listens p.ip p.port = some (.node node)

/-- The client can read the Master's table: its text fits a frame and comes back. -/
structure TableReadable (peers : List PeerInfo) (m : Master) : Prop where
  fits : 15 + (shardsBody peers m.tablets).length < 2 ^ 32
  fetch : fetchRouteTable (shardsPayload peers m.tablets)
    = some (true, m.tablets.map (Tablet.cached peers))

section Calm

variable {net : Network} {links : Links} {w : World} {c : LekvCli}

/-- `FetchRouteTable` gets the Master's table. -/
theorem run_fetchRouteTable_calm (hclient : CalmClient net c links)
    (htable : TableReadable net.peers w.1) :
    ∃ links', net.env.run Cli.fetchRouteTable (c, (w, links))
        = (some (true, w.1.tablets.map (Tablet.cached net.peers)),
            ({ c with reqId := c.reqId + 1 }, (w, links'))) ∧
      (links' .proxy).Calm .master := by
  have hserve : net.serve .master (encodeRequest c.reqId OP_SHARDS [] []) w
      = (packResponse c.reqId (ST_OK :: shardsBody net.peers w.1.tablets), w) := by
    rw [encodeRequest_eq_custom c.reqId OP_SHARDS (by simp) (by simp)]
    exact Prod.ext (Master.serve_request (by rw [length_kvPayload]; simp) rfl) rfl
  -- the connection is open already, or is opened now
  obtain ⟨links₁, hopen, hcalm⟩ : ∃ links₁, (net.env.isConnected (w, links) = true ∧
        (w, links₁) = (w, links) ∨
      net.env.isConnected (w, links) = false ∧
        net.env.connect .proxy c.masterIp c.masterPort (w, links) = (true, (w, links₁))) ∧
      (links₁ .proxy).Calm .master := by
    rcases hclient.proxy with hcalm | ⟨hclosed, hbuf⟩
    · exact ⟨links, .inl ⟨hcalm.connected, rfl⟩, hcalm⟩
    · refine ⟨Function.update links .proxy ⟨some .master, .fresh⟩, .inr ⟨hclosed, ?_⟩, ?_⟩
      · simp only [Network.env, hclient.listens, Option.isSome_some, Network.keptBuf, hbuf]
        rfl
      · rw [Function.update_self]
        exact ⟨rfl, rfl, Connection.quiet_fresh⟩
  obtain ⟨link, hlink, hreply⟩ := run_sendAndRecv_calm hcalm hserve htable.fits
  refine ⟨Function.update links₁ .proxy link, ?_, ?_⟩
  · exact CliEnvironment.run_fetchRouteTable hopen hreply htable.fetch
  · rw [Function.update_self]
    exact hlink

/-- The payload that an operation is sent with. -/
theorem ClientOp.payload_eq (o : ClientOp) : o.payload = kvPayload o.opcode o.key o.value := by
  cases o <;> rfl

/-- An operation that fits its request, as the client encodes it. -/
theorem ClientOp.Fits.lengths {o : ClientOp} (h : o.Fits) :
    o.key.length < 2 ^ 16 ∧ 17 + o.key.length + o.value.length < 2 ^ 32 := by
  cases o with
  | put key value => exact h
  | get key =>
    have hkey : key.length < 2 ^ 16 := h
    exact ⟨hkey, by show 17 + key.length + 0 < 2 ^ 32; omega⟩
  | delete key =>
    have hkey : key.length < 2 ^ 16 := h
    exact ⟨hkey, by show 17 + key.length + 0 < 2 ^ 32; omega⟩

/-- A port number is read back from an address. -/
theorem stoi_port (port : UInt16) : Cli.stoi (decimal port.toNat) = some (port.toNat : ℤ) := by
  have hparse := @parseDecimal_decimal port.toNat [] (by simp)
  rw [List.append_nil] at hparse
  have hlt := port.toNat_lt
  simp only [Cli.stoi, hparse, Bool.false_eq_true, if_false]
  rw [if_pos (by omega)]

/-- The text of a response is its value. -/
theorem doDataNodeRequest_response (status : UInt8) {value : Bytes}
    (hvalue : 5 + value.length < 2 ^ 32) :
    doDataNodeRequest (status :: (be 4 value.length ++ value)) = some (true, status, value) := by
  have hlen : (status :: (be 4 value.length ++ value)).length = 5 + value.length := by
    simp only [List.length_cons, List.length_append, length_be]
    omega
  have hfield : numAt (status :: (be 4 value.length ++ value)) 1 4 = some value.length := by
    have h := num32At_append [status] value value.length rfl
    rwa [Nat.mod_eq_of_lt (by omega)] at h
  have hbytes : bytesAt (status :: (be 4 value.length ++ value)) 5 value.length = some value := by
    have h := bytesAt_append (status :: be 4 value.length) value [] (rfl : 5 = _) rfl
    rwa [List.append_nil, List.cons_append] at h
  rw [doDataNodeRequest, if_neg (by omega), hfield]
  simp only [Option.bind_eq_bind, Option.bind_some, hlen, hbytes]
  rcases Nat.eq_zero_or_pos value.length with hzero | hpos
  · rw [if_neg (by omega), List.length_eq_zero_iff.mp hzero]
    rfl
  · rw [if_pos ⟨hpos, Nat.mod_le _ _⟩]
    rfl

/-- The address of a DataNode is the one of the first peer with its id. -/
theorem find_of_mem_dataNodes {peers : List PeerInfo} (hpeers : ConfiguredPeers peers) {node : UInt32}
    (hnode : node ∈ dataNodes peers) :
    ∃ p, peers.find? (fun p => p.id = node.toUInt64) = some p ∧ PlainKey p.ip ∧
      getNodeAddr peers node = p.ip ++ COLON :: decimal p.port.toNat := by
  obtain ⟨_, -, -, haddr⟩ := getNodeAddr_eq hpeers hnode
  rcases hfind : peers.find? (fun p => p.id = node.toUInt64) with _ | p
  · unfold getNodeAddr at haddr
    rw [hfind] at haddr
    exact absurd haddr.symm (by simp)
  · refine ⟨p, hfind, fun b hb => ?_, ?_⟩
    swap
    · unfold getNodeAddr
      rw [hfind]
    rcases hpeers.ip p (List.mem_of_find?_eq_some hfind) b hb with hdigit | rfl
    · exact plain_of_isDigit hdigit
    · decide

/-- A request to the DataNode that serves a key is answered with the node's response. -/
theorem run_doDataNodeRequest_calm (hnet : Configured net) {o : ClientOp} (hfits : o.Fits)
    {node : UInt32} (hnode : node ∈ dataNodes net.peers) {status : UInt8} {value : Bytes}
    {n : DataNode}
    (hh : DataNode.handleBinaryRequest c.reqId o.payload (w.2.nodes node) = some (status :: value, n))
    (hvalue : 15 + value.length < 2 ^ 32) :
    ∃ links', net.env.run (Cli.doDataNodeRequest (getNodeAddr net.peers node) o.opcode o.key o.value)
        (c, (w, links)) = (some (true, status, value), ({ c with reqId := c.reqId + 1 },
          ((w.1, { w.2 with nodes := Function.update w.2.nodes node n }), links'))) ∧
      links' .proxy = links .proxy := by
  obtain ⟨hkey, hsum⟩ := hfits.lengths
  obtain ⟨p, hfind, hip, haddr⟩ := find_of_mem_dataNodes hnet.peers hnode
  have hserve : net.serve (.node node) (encodeRequest c.reqId o.opcode o.key o.value) w
      = (packResponse c.reqId (status :: value),
          (w.1, { w.2 with nodes := Function.update w.2.nodes node n })) := by
    rw [encodeRequest_eq_custom c.reqId o.opcode hkey hsum, ← o.payload_eq]
    have hfit : 10 + o.payload.length < 2 ^ 32 := by
      rw [o.payload_eq, length_kvPayload]
      omega
    simp only [Network.serve, LeKV.serve_request hfit hh]
  have hconnect : net.env.connect .dataNode p.ip (UInt16.ofInt p.port.toNat) (w, links)
      = (true, (w, Function.update links .dataNode ⟨some (.node node), .fresh⟩)) := by
    have hport : UInt16.ofInt p.port.toNat = p.port := by
      have hlt := p.port.toNat_lt
      have hmod : ((p.port.toNat : ℤ) % 65536).toNat % 65536 = p.port.toNat := by omega
      exact UInt16.toNat.inj (by simpa [UInt16.ofInt] using hmod)
    simp only [Network.env, hport, hnet.listens node hnode p hfind, Network.keptBuf]
    rfl
  have hcalm : (Function.update links Peer.dataNode ⟨some (.node node), .fresh⟩ .dataNode).Calm
      (.node node) := by
    rw [Function.update_self]
    exact ⟨rfl, rfl, Connection.quiet_fresh⟩
  obtain ⟨link, -, hreply⟩ := run_sendAndRecv_calm hcalm hserve hvalue
  have hresult : doDataNodeRequest (status :: (be 4 value.length ++ value))
      = some (true, status, value) := doDataNodeRequest_response status (by omega)
  rw [haddr]
  refine ⟨_, CliEnvironment.run_doDataNodeRequest hip.colon_notMem (stoi_port p.port) hconnect hreply
    hresult, ?_⟩
  simp

/-! ## One command -/

/-- What is printed for the response of a DataNode to an operation on the map `σ`. -/
theorem answerLine_answer {σ : Bytes → Option Bytes} {cmd : Bytes} {o : ClientOp}
    (hword : (Command.data cmd o).Worded) (hvalues : ∀ k v, σ k = some v → 15 + v.length < 2 ^ 32) :
    ∃ status value, o.answer σ = status :: value ∧ 15 + value.length < 2 ^ 32 ∧
      Cli.answerLine cmd status value = .out (Command.shown cmd σ o) := by
  have hnot : ∀ o : ClientOp, o ≠ .get o.key → (cmd = text "get" → o = .get o.key) →
      ¬cmd = text "get" := fun o ho h hget => ho (h hget)
  have hok : text "OK" ++ text "\n" = text "OK\n" := by decide +kernel
  cases o with
  | put key value =>
    refine ⟨ST_OK, [], rfl, by norm_num, ?_⟩
    rw [Cli.answerLine, if_pos rfl, if_neg (hnot _ (by simp [ClientOp.key]) hword), hok]
    rfl
  | delete key =>
    refine ⟨ST_OK, [], rfl, by norm_num, ?_⟩
    rw [Cli.answerLine, if_pos rfl, if_neg (hnot _ (by simp [ClientOp.key]) hword), hok]
    rfl
  | get key =>
    rcases hkey : σ key with _ | value
    · refine ⟨ST_NOT_FOUND, [], by rw [ClientOp.answer, hkey], by norm_num, ?_⟩
      rw [Command.shown, hkey]
      rfl
    · refine ⟨ST_OK, value, by rw [ClientOp.answer, hkey], hvalues key value hkey, ?_⟩
      rw [Cli.answerLine, if_pos rfl, Command.shown, hkey]
      dsimp only
      split_ifs
      · rfl
      · rfl
      · rw [hok]

theorem run_printTablets {E : CliEnvironment (World × Links)} {s : World × Links}
    (tablets : List CachedTablet) (c : LekvCli) {α : Type} (f : Unit → Cli α) :
    E.run (Cli.printTablets tablets >>= f) (c, s)
      = E.run (f ()) ({ c with
          printed := c.printed ++ tablets.map fun t => .out (Cli.tabletLine t) }, s) := by
  induction tablets generalizing c with
  | nil => simp [Cli.printTablets]
  | cons t tablets ih =>
    rw [Cli.printTablets, bind_assoc, CliEnvironment.run_print, ih]
    simp

/-- A command while the network is calm, on a cluster that refines `σ`: what is printed is the
answer of one map, and an operation is executed at the DataNode that the Master names. -/
theorem run_command {σ : Bytes → Option Bytes} (hnet : Configured net) (hclient : CalmClient net c links)
    (htable : TableReadable net.peers w.1) (hrefines : Refines σ w)
    (hnodes : ∀ t ∈ w.1.tablets, t.nodeId ∈ dataNodes net.peers)
    (hvalues : ∀ k v, σ k = some v → 15 + v.length < 2 ^ 32) {cmd : Command} (hword : cmd.Worded)
    (hfits : ∀ o, cmd.op? = some o → o.Fits) :
    ∃ c' w' links', net.env.run cmd.prog (c, (w, links)) = (some cmd.ending, (c', (w', links'))) ∧
      c'.printed = c.printed ++ cmd.answer σ (w.1.tablets.map (Tablet.cached net.peers)) ∧
      CalmClient net c' links' ∧
      match cmd.op? with
      | none => w' = w
      | some o => ∃ reqId resp, o.exec reqId w = some (resp, w') := by
  obtain ⟨links₁, hfetch, hlinks₁⟩ := run_fetchRouteTable_calm hclient htable
  have hsame : ∀ printed, CalmClient net { c with printed } links := fun printed =>
    ⟨hclient.listens, hclient.proxy⟩
  cases cmd with
  | blank => exact ⟨c, w, links, rfl, by simp [Command.answer], hclient, rfl⟩
  | exit => exact ⟨_, w, links, rfl, rfl, hsame _, rfl⟩
  | help => exact ⟨_, w, links, rfl, rfl, hsame _, rfl⟩
  | noKey => exact ⟨_, w, links, rfl, rfl, hsame _, rfl⟩
  | tablets =>
    refine ⟨{ c with
        reqId := c.reqId + 1
        printed := c.printed ++ (w.1.tablets.map (Tablet.cached net.peers)).map fun t =>
          .out (Cli.tabletLine t) }, w, links₁, ?_, rfl, ⟨hclient.listens, .inl hlinks₁⟩, rfl⟩
    rw [Command.prog, CliEnvironment.run_bind_some hfetch]
    simp only [not_true_eq_false, if_false]
    rw [run_printTablets]
    rfl
  | data cmd o =>
    have ho := hfits o rfl
    -- the tablet that the client finds is the Master's
    obtain ⟨t, hroute, u, hu, -, hnode⟩ := hrefines.tiles.route_owner o.key
    have hmem : t.nodeId ∈ dataNodes net.peers := hnode ▸ hnodes u hu
    have howner : ownerOf w.1.tablets o.key = t.nodeId := by rw [ownerOf, hroute]; rfl
    have hview : (w.2.nodes t.nodeId).lookup o.key = σ o.key := by
      rw [← hrefines.view, ← howner]
      rfl
    obtain ⟨n, hhandle, -⟩ := (hrefines.works t.nodeId).handle ho (c.reqId + 1)
    obtain ⟨status, value, hanswer, hvalue, hline⟩ := answerLine_answer hword hvalues
    rw [ClientOp.answer_congr hview, hanswer] at hhandle
    obtain ⟨links₂, hrequest, hlinks₂⟩ := @run_doDataNodeRequest_calm net links₁ w
      { c with reqId := c.reqId + 1 } hnet o ho t.nodeId hmem status value n hhandle hvalue
    refine ⟨{ c with reqId := c.reqId + 1 + 1, printed := c.printed ++ [.out (Command.shown cmd σ o)] },
      (w.1, { w.2 with nodes := Function.update w.2.nodes t.nodeId n }), links₂, ?_, rfl,
      ⟨hclient.listens, .inl (hlinks₂ ▸ hlinks₁)⟩, c.reqId + 1, status :: value, ?_⟩
    · rw [Command.prog, CliEnvironment.run_bind_some hfetch]
      simp only [not_true_eq_false, if_false]
      rw [findRoute_cached, hroute, Option.map_some]
      dsimp only
      rw [CliEnvironment.run_bind_some hrequest]
      simp only [not_true_eq_false, if_false]
      rw [CliEnvironment.run_print, hline]
      rfl
    · simp only [ClientOp.exec, hroute, hhandle, Option.bind_eq_bind, Option.bind_some]
      rfl

end Calm

end LeKV
