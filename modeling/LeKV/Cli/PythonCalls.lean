import LeKV.Cli.Deployment
import LeKV.Cli.PythonFrames

/-!
# Calls of the Python client

The Python client in the network of the other clients: each exchange has a socket of its own, and the
reply arrives in pieces that the network cuts. `run_call` is one call in front of any stores and any
routing table that the client can read: it returns the answer of one map, or it raises `struct.error`
and nothing has changed.
-/

namespace LeKV

open Bytes BinaryProtocol Text

/-! ## The network -/

/-- A socket: who is at the other end, and what has come back but was not read. -/
structure PySocket where
  party : Party
  wire : Bytes

/-- The sockets of a client, and the number of the next one. -/
structure Sockets where
  next : ℕ
  opened : ℕ → Option PySocket

namespace Sockets

/-- All sockets are closed. -/
def idle (n : ℕ) : Sockets := ⟨n, fun _ => none⟩

/-- The last socket is open. -/
def one (n : ℕ) (s : PySocket) : Sockets := ⟨n + 1, Function.update (fun _ => none) n (some s)⟩

theorem opened_one (n : ℕ) (s : PySocket) : (one n s).opened n = some s := by
  simp only [one, Function.update_self]

theorem set_one (n : ℕ) (s s' : PySocket) :
    ⟨(one n s).next, Function.update (one n s).opened n (some s')⟩ = one n s' := by
  rw [one, one, Function.update_idem]

theorem close_one (n : ℕ) (s : PySocket) :
    ⟨(one n s).next, Function.update (one n s).opened n none⟩ = idle (n + 1) := by
  rw [one, idle, Function.update_idem, Function.update_eq_self]

end Sockets

/-- Errors of sockets. -/
def ECONNREFUSED : ℤ := 111
def EBADF : ℤ := 9

namespace Network

variable (net : Network) (cut : ℕ → Bytes → List Bytes)

/-- The network as the environment of a Python client. What is sent back on the socket `n` arrives in
the pieces that `cut n` makes. -/
def pyEnv : PyEnvironment (World × Sockets) where
  connect host port s :=
    -- Python checks the port before it asks the system.
    if port < 0 ∨ 65535 < port then (.error .overflowError, s)
    else
      match net.listens (LekvClient.encode host) (UInt16.ofNat port.toNat) with
      | none => (.error (.osError ECONNREFUSED), s)
      | some p =>
        (.ok s.2.next,
          (s.1, ⟨s.2.next + 1, Function.update s.2.opened s.2.next (some ⟨p, []⟩)⟩))
  sendall sock data s :=
    match s.2.opened sock with
    | none => (.error (.osError EBADF), s)
    | some l =>
      let served := net.serve l.party data s.1
      (.ok (), (served.2,
        { s.2 with opened := Function.update s.2.opened sock (some ⟨l.party, l.wire ++ served.1⟩) }))
  recv sock s :=
    match s.2.opened sock with
    | none => ([.raised (.osError EBADF)], s)
    | some l =>
      ((cut sock l.wire).map .chunk,
        (s.1, { s.2 with opened := Function.update s.2.opened sock (some ⟨l.party, []⟩) }))
  close sock s := (s.1, { s.2 with opened := Function.update s.2.opened sock none })
  sleep s := s

end Network

/-- Bytes are cut into pieces, none of them empty. -/
def Cuts (cut : ℕ → Bytes → List Bytes) : Prop :=
  ∀ sock b, (cut sock b).flatten = b ∧ ∀ c ∈ cut sock b, c ≠ []

namespace LekvClient

/-! ## Strings that the text format can carry -/

/-- The code of such a string is one that the other clients can read. -/
theorem PlainStr.plainKey {s : Str} (h : PlainStr s) : PlainKey (encode s) := by
  intro b hb
  obtain ⟨c, hc, hbc⟩ := List.mem_flatMap.mp hb
  obtain ⟨hcolon, hspace⟩ := h c hc
  constructor
  · rintro rfl
    have hnat : (0x3A : ℕ) = c.toNat := Utf8.toNat_of_ascii hbc (by decide)
    exact hcolon (Char.toNat_inj.mp hnat.symm)
  · by_contra hb'
    have hblank : b.toNat = 0x20 ∨ 0x09 ≤ b.toNat ∧ b.toNat ≤ 0x0D := by
      simpa [isSpace, UInt8.le_iff_toNat_le, UInt8.ext_iff, or_iff_not_imp_left] using hb'
    have hnat : b.toNat = c.toNat := Utf8.toNat_of_ascii hbc (by omega)
    have hspace' : isspace c = true := by
      simp only [isspace, Bool.or_eq_true, Bool.and_eq_true, decide_eq_true_eq]
      omega
    exact absurd (hspace.symm.trans hspace') (by decide)

/-- A key that every client can read in the table. -/
def TextKey (key : Bytes) : Prop := ∃ s, PlainStr s ∧ encode s = key

theorem TextKey.plainKey {key : Bytes} (h : TextKey key) : PlainKey key := by
  obtain ⟨s, hs, rfl⟩ := h
  exact hs.plainKey

/-! ## Addresses -/

/-- The client takes an address apart into the host and the port that the configuration names. -/
theorem Carried.hostPort_addr {peers : List PeerInfo} (hpeers : ConfiguredPeers peers) {t : Tablet}
    (hnode : t.nodeId ∈ dataNodes peers) {info : TabletInfo} {host port : Str}
    (h : Carried peers t info host port) :
    ∃ p, peers.find? (fun p => p.id = t.nodeId.toUInt64) = some p ∧ encode host = p.ip ∧
      hostPort info.addr = .ok (host, (p.port.toNat : ℤ)) := by
  obtain ⟨p, hfind, hip, haddr⟩ := find_of_mem_dataNodes hpeers hnode
  obtain ⟨-, -, hhost, hport⟩ := h.plain
  have hencode : encode host ++ COLON :: encode port = p.ip ++ COLON :: decimal p.port.toNat := by
    rw [← haddr, ← h.encode_addr, h.addr, encode_append, encode_cons]
    rfl
  obtain ⟨hip', -, hport'⟩ := (List.append_cons_inj_of_notMem hhost.plainKey.colon_notMem
    hport.plainKey.colon_notMem).mp hencode
  have hdecimal : port = ofAscii (decimal p.port.toNat) :=
    orderedCode_utf8.flatMap_injective (hport'.trans (encode_ofAscii dotted_decimal).symm)
  refine ⟨p, hfind, hip', ?_⟩
  rw [hostPort, h.addr, List.splitOn_append_cons_self_of_not_mem hhost.colon_notMem,
    List.splitOn_eq_singleton hport.colon_notMem]
  dsimp only
  rw [hdecimal, int_decimal]
  rfl

/-- A tablet as the client should get it. -/
def info (peers : List PeerInfo) (t : Tablet) : TabletInfo :=
  ⟨t.id.toNat, Utf8.decodeReplace t.startKey, Utf8.decodeReplace t.endKey,
    Utf8.decodeReplace (getNodeAddr peers t.nodeId)⟩

/-- There is only one way to carry a tablet. -/
theorem Carried.eq_info {peers : List PeerInfo} {t : Tablet} {i : TabletInfo} {host port : Str}
    (h : Carried peers t i host port) : i = info peers t := by
  rw [info, ← h.encode_addr, ← h.start, ← h.end_, ← h.id]
  simp only [encode, Utf8.decodeReplace_flatMap]

/-- A table that a client can read: it tiles the keys, its boundaries are text, its tablets are on
configured nodes, and the list fits a frame. -/
structure Readable (peers : List PeerInfo) (tablets : List Tablet) : Prop where
  tiles : Tiles tablets
  text : Boundaries TextKey tablets
  nodes : ∀ t ∈ tablets, t.nodeId ∈ dataNodes peers
  fits : 15 + (shardsBody peers tablets).length < 2 ^ 32

theorem Readable.carried {peers : List PeerInfo} (hpeers : ConfiguredPeers peers)
    {tablets : List Tablet} (h : Readable peers tablets) :
    ∃ host port : Tablet → Str, ∀ t ∈ tablets, Carried peers t (info peers t) (host t) (port t) := by
  have hexists : ∀ t ∈ tablets, ∃ host port, Carried peers t (info peers t) host port := by
    intro t ht
    obtain ⟨⟨start, hstart, hs⟩, end_, hend, he⟩ := h.text t ht
    obtain ⟨i, host, port, hcarried⟩ := exists_carried hpeers (h.nodes t ht)
      ⟨⟨0, start, end_, []⟩, ⟨hs, he⟩, hstart, hend⟩
    exact ⟨host, port, hcarried.eq_info ▸ hcarried⟩
  choose! host port hcarried using hexists
  exact ⟨host, port, hcarried⟩

end LekvClient

/-! ## Exchanges -/

section Exchange

open LekvClient

variable {net : Network} {cut : ℕ → Bytes → List Bytes} {w w' : World} {c : LekvClient} {n : ℕ}
  {p : Party}

/-- A request on a new socket brings back the server's response, however it is cut. -/
theorem run_sendAndRecv_served (hcut : Cuts cut) {payload value : Bytes} {status : UInt8}
    (hid : c.reqId < 2 ^ 32) (hpayload : 10 + payload.length < 2 ^ 32)
    (hserve : net.serve p (frame (10 + payload.length) (UInt32.ofNat c.reqId) payload) w
      = (packResponse (UInt32.ofNat c.reqId) (status :: value), w'))
    (hvalue : 15 + value.length < 2 ^ 32) :
    (net.pyEnv cut).run (LekvClient.sendAndRecv n payload) (c, (w, .one n ⟨p, []⟩))
      = (some (.ok (status :: (be 4 value.length ++ value))),
          ({ c with reqId := c.reqId + 1 }, (w', .one n ⟨p, []⟩))) := by
  have hframe : encodeFrame c.reqId payload
      = .ok (frame (10 + payload.length) (UInt32.ofNat c.reqId) payload) := by
    rw [encodeFrame_eq, if_pos (And.intro hpayload hid)]
  have hnat : (UInt32.ofNat c.reqId).toNat = c.reqId := by
    rw [UInt32.toNat_ofNat', Nat.mod_eq_of_lt hid]
  generalize hreply : packResponse (UInt32.ofNat c.reqId) (status :: value) = reply at hserve
  have hsend : (net.pyEnv cut).sendall n (frame (10 + payload.length) (UInt32.ofNat c.reqId) payload)
      (w, .one n ⟨p, []⟩) = (.ok (), (w', .one n ⟨p, reply⟩)) := by
    simp only [Network.pyEnv, Sockets.opened_one, hserve, Sockets.set_one, List.nil_append]
  have hrecv : (net.pyEnv cut).recv n (w', .one n ⟨p, reply⟩)
      = ((cut n reply).map .chunk, (w', .one n ⟨p, []⟩)) := by
    simp only [Network.pyEnv, Sockets.opened_one, Sockets.set_one]
  have hdec : LekvClient.recvFrame [] ((cut n reply).map .chunk)
      = .ok (c.reqId, status :: (be 4 value.length ++ value)) := by
    have hlen : 10 + (status :: (be 4 value.length ++ value)).length < 2 ^ 32 := by
      simp only [List.length_cons, List.length_append, length_be]
      omega
    have hpack : packResponse (UInt32.ofNat c.reqId) (status :: value)
        = frame (10 + (status :: (be 4 value.length ++ value)).length) (UInt32.ofNat c.reqId)
            (status :: (be 4 value.length ++ value)) := encodeResponse_eq _ _ hvalue
    refine recvFrame_of_decodeFrame (hcut n reply).2 ?_
    rw [(hcut n reply).1, ← hreply, hpack, decodeFrame_frame _ hlen, hnat]
  have hresult := @PyEnvironment.run_sendAndRecv _ (net.pyEnv cut) c _ n _ _ _ _ hframe hsend
    (by rw [hrecv]; exact hdec)
  rw [hresult, hrecv]

/-- A connection to somebody who listens. -/
theorem connect_listens {host : Str} {port : UInt16}
    (hlistens : net.listens (encode host) port = some p) :
    (net.pyEnv cut).connect host port.toNat (w, .idle n) = (.ok n, (w, .one n ⟨p, []⟩)) := by
  have hlt := port.toNat_lt
  have hrange : ¬((port.toNat : ℤ) < 0 ∨ (65535 : ℤ) < port.toNat) := by omega
  have hport : UInt16.ofNat ((port.toNat : ℤ)).toNat = port := by
    rw [Int.toNat_natCast, UInt16.ofNat_toNat]
  simp only [Network.pyEnv, if_neg hrange, hport, hlistens]
  rfl

theorem close_idle : (net.pyEnv cut).close n (w, .one n ⟨p, []⟩) = (w, .idle (n + 1)) :=
  congrArg (w, ·) (Sockets.close_one n _)

/-- The proxy address of a client leads to the Master. -/
def ReachesMaster (net : Network) (c : LekvClient) : Prop :=
  ∃ port : UInt16, c.proxyPort = port.toNat ∧ net.listens (encode c.proxyHost) port = some .master

section Tables

/-- The client reads the Master's table. -/
theorem readTable_shards {peers : List PeerInfo} (hpeers : ConfiguredPeers peers)
    {tablets : List Tablet} (h : Readable peers tablets) :
    readTable (ST_OK :: (be 4 (shardsBody peers tablets).length ++ shardsBody peers tablets))
      = .ok (tablets.map (info peers)) := by
  obtain ⟨host, port, hcarried⟩ := h.carried hpeers
  have hfits := h.fits
  have hbody : Utf8.decodeReplace (shardsBody peers tablets) = bodyText tablets (info peers) := by
    rw [← encode_bodyText hcarried]
    exact Utf8.decodeReplace_flatMap _
  rw [readTable, parseKvResponse_response _ (by omega), hbody]
  dsimp only
  rw [if_neg (not_not.mpr rfl), parseShardsBody_bodyText hcarried h.tiles]
  rfl

variable (hcut : Cuts cut) (hnet : Configured net) (hreach : ReachesMaster net c)
  (hreadable : Readable net.peers w.1.tablets)

include hcut hnet hreach hreadable

/-- `fetch_route_table` gets the Master's table while there are request ids. -/
theorem run_fetchRouteTable_served :
    (net.pyEnv cut).run LekvClient.fetchRouteTable (c, (w, .idle n))
      = (some (if c.reqId < 2 ^ 32 then .ok (w.1.tablets.map (info net.peers))
          else .error .structError), ({ c with reqId := c.reqId + 1 }, (w, .idle (n + 1)))) := by
  obtain ⟨proxyPort, hport, hlistens⟩ := hreach
  have hconnect : (net.pyEnv cut).run (LekvClient.connect c.proxyHost c.proxyPort) (c, (w, .idle n))
      = (some (.ok n), (c, (w, .one n ⟨.master, []⟩))) := by
    rw [PyEnvironment.run_connect, hport, connect_listens hlistens]
  have hpayload : encodeKvRequest OP_SHARDS [] [] = .ok (kvPayload OP_SHARDS [] []) := by
    rw [encodeKvRequest_eq]
    exact if_pos ⟨by decide, by decide⟩
  have hlen : 10 + (kvPayload OP_SHARDS [] []).length < 2 ^ 32 := by decide
  have hclose : (net.pyEnv cut).close n (w, .one n ⟨.master, []⟩) = (w, .idle (n + 1)) := close_idle
  rw [LekvClient.fetchRouteTable, PyEnvironment.run_get, PyEnvironment.run_bind_ok hconnect]
  by_cases hid : c.reqId < 2 ^ 32
  · have hserve : net.serve .master
        (frame (10 + (kvPayload OP_SHARDS [] []).length) (UInt32.ofNat c.reqId)
          (kvPayload OP_SHARDS [] [])) w
        = (packResponse (UInt32.ofNat c.reqId) (ST_OK :: shardsBody net.peers w.1.tablets), w) := by
      rw [← encodeCustomRequest_eq _ hlen]
      exact Prod.ext (Master.serve_request hlen rfl) rfl
    have hbody := run_sendAndRecv_served (n := n) hcut hid hlen hserve hreadable.fits
    rw [if_pos hid, ← hclose]
    refine PyEnvironment.run_closing ?_
    rw [hpayload, PyEnvironment.run_bind_ok (PyEnvironment.run_lift _ _),
      PyEnvironment.run_bind_ok hbody, readTable_shards hnet.peers hreadable]
    exact PyEnvironment.run_lift _ _
  · have hframe : encodeFrame c.reqId (kvPayload OP_SHARDS [] []) = .error .structError := by
      rw [encodeFrame_eq, if_neg (not_and_of_not_right _ hid)]
    rw [if_neg hid, ← hclose]
    refine PyEnvironment.run_closing ?_
    rw [hpayload, PyEnvironment.run_bind_ok (PyEnvironment.run_lift _ _),
      PyEnvironment.run_bind_error (PyEnvironment.run_sendAndRecv_error hframe)]

/-- A call finds the DataNode that the Master names, and connects to it. -/
theorem run_doKv_connected (opcode : UInt8) (key value : Str) (hid : c.reqId < 2 ^ 32) :
    ∃ t, getTabletRoute w.1.tablets (encode key) = some t ∧
      (net.pyEnv cut).run (LekvClient.doKv opcode key value) (c, (w, .idle n))
        = (net.pyEnv cut).run (closing (n + 1) (exchange (n + 1) opcode key value))
            ({ c with reqId := c.reqId + 1 }, (w, .one (n + 1) ⟨.node t.nodeId, []⟩)) := by
  obtain ⟨t, ht, hroute, -⟩ := hreadable.tiles.getTabletRoute_isSome (encode key)
  obtain ⟨host, port, hcarried⟩ := hreadable.carried hnet.peers
  have hfetch := run_fetchRouteTable_served (n := n) hcut hnet hreach hreadable
  rw [if_pos hid] at hfetch
  obtain ⟨q, hfind, hip, haddr⟩ := (hcarried t ht).hostPort_addr hnet.peers (hreadable.nodes t ht)
  have hlistens : net.listens (encode (host t)) q.port = some (.node t.nodeId) := by
    rw [hip]
    exact hnet.listens t.nodeId (hreadable.nodes t ht) q hfind
  have hconnect : ∀ c, (net.pyEnv cut).run (LekvClient.connect (host t) q.port.toNat)
      (c, (w, .idle (n + 1))) = (some (.ok (n + 1)), (c, (w, .one (n + 1) ⟨.node t.nodeId, []⟩))) := by
    intro c
    rw [PyEnvironment.run_connect, connect_listens hlistens]
  refine ⟨t, hroute, ?_⟩
  rw [LekvClient.doKv, PyEnvironment.run_bind_ok hfetch,
    findRoute_decoded fun u hu => (hcarried u hu).toDecodes, hroute, Option.map_some]
  dsimp only
  rw [haddr, PyEnvironment.run_bind_ok (PyEnvironment.run_lift _ _)]
  exact PyEnvironment.run_bind_ok (hconnect _) _

end Tables

/-! ## Requests -/

/-- When an operation fits its request. -/
theorem ClientOp.fits_iff {o : ClientOp} :
    o.Fits ↔ o.key.length < 2 ^ 16 ∧ 17 + o.key.length + o.value.length < 2 ^ 32 := by
  refine ⟨ClientOp.Fits.lengths, fun h => ?_⟩
  cases o with
  | put key value => exact h
  | get key => exact h.1
  | delete key => exact h.1

section Requests

variable {σ : Bytes → Option Bytes} {key value : Str} {o : ClientOp}
  (hkey : encode key = o.key) (hvalue : encode value = o.value)

include hkey hvalue

/-- A request that fits is answered with the node's response. -/
theorem run_exchange_served (hcut : Cuts cut) (hfits : o.Fits) (hid : c.reqId < 2 ^ 32)
    {node : UInt32} {status : UInt8} {result : Bytes} {d : DataNode}
    (hhandle : DataNode.handleBinaryRequest (UInt32.ofNat c.reqId) o.payload (w.2.nodes node)
      = some (status :: result, d)) (hstatus : status ≠ ST_NOT_MY_SHARD)
    (hresult : 15 + result.length < 2 ^ 32) :
    (net.pyEnv cut).run (exchange n o.opcode key value) (c, (w, .one n ⟨.node node, []⟩))
      = (some (.ok ((status.toNat : ℤ), Utf8.decodeReplace result)),
          ({ c with reqId := c.reqId + 1 },
            ((w.1, { w.2 with nodes := Function.update w.2.nodes node d }),
              .one n ⟨.node node, []⟩))) := by
  obtain ⟨hklen, hsum⟩ := hfits.lengths
  have hpayload : encodeKvRequest o.opcode key value = .ok o.payload := by
    rw [encodeKvRequest_eq, hkey, hvalue, if_pos ⟨hklen, by omega⟩, o.payload_eq]
  have hlen : 10 + o.payload.length < 2 ^ 32 := by
    rw [o.payload_eq, length_kvPayload]
    omega
  have hserve : net.serve (.node node)
      (frame (10 + o.payload.length) (UInt32.ofNat c.reqId) o.payload) w
      = (packResponse (UInt32.ofNat c.reqId) (status :: result),
          (w.1, { w.2 with nodes := Function.update w.2.nodes node d })) := by
    rw [← encodeCustomRequest_eq _ hlen]
    simp only [Network.serve, LeKV.serve_request hlen hhandle]
  have hbody := run_sendAndRecv_served (n := n) hcut hid hlen hserve hresult
  -- So there is no second try.
  have hnot : ¬(status.toNat : ℤ) = (ST_NOT_MY_SHARD.toNat : ℤ) := fun h =>
    hstatus (UInt8.toNat_inj.mp (Int.ofNat.inj h))
  rw [exchange, hpayload, PyEnvironment.run_bind_ok (PyEnvironment.run_lift _ _),
    PyEnvironment.run_bind_ok hbody, parseKvResponse_response _ (by omega)]
  dsimp only
  rw [if_neg hnot, PyEnvironment.run_pure]

/-- A request that does not fit, or has no id, is not sent. -/
theorem run_exchange_error (h : ¬(o.Fits ∧ c.reqId < 2 ^ 32)) {s : World × Sockets} :
    ∃ k, (net.pyEnv cut).run (exchange n o.opcode key value) (c, s)
      = (some (.error .structError), ({ c with reqId := k }, s)) := by
  by_cases hpack : o.key.length < 2 ^ 16 ∧ o.value.length < 2 ^ 32
  -- The payload is packed, and the frame is not: its length or the id is too large.
  · refine ⟨c.reqId + 1, ?_⟩
    have hframe : encodeFrame c.reqId (kvPayload o.opcode o.key o.value) = .error .structError := by
      rw [encodeFrame_eq, if_neg]
      rintro ⟨hlen, hid⟩
      rw [length_kvPayload] at hlen
      exact h ⟨ClientOp.fits_iff.mpr ⟨hpack.1, by omega⟩, hid⟩
    rw [exchange, encodeKvRequest_eq, hkey, hvalue, if_pos hpack,
      PyEnvironment.run_bind_ok (PyEnvironment.run_lift _ _),
      PyEnvironment.run_bind_error (PyEnvironment.run_sendAndRecv_error hframe)]
  -- The payload itself is not packed, so no id is taken.
  · refine ⟨c.reqId, ?_⟩
    rw [exchange, encodeKvRequest_eq, hkey, hvalue, if_neg hpack,
      PyEnvironment.run_bind_error (PyEnvironment.run_lift _ _)]

end Requests

section Calls

variable {σ : Bytes → Option Bytes} {key value : Str} {o : ClientOp} (hcut : Cuts cut)
  (hnet : Configured net) (hreach : ReachesMaster net c) (hreadable : Readable net.peers w.1.tablets)

include hcut hnet hreach hreadable

/-- An operation that fits, with two request ids left: it is executed. -/
theorem run_doKv_served (hrefines : Refines σ w) (hvalues : ∀ k v, σ k = some v → 15 + v.length < 2 ^ 32)
    (hkey : encode key = o.key) (hvalue : encode value = o.value) (hfits : o.Fits)
    (hid : c.reqId + 1 < 2 ^ 32) :
    ∃ status result w', o.answer σ = status :: result ∧
      (net.pyEnv cut).run (LekvClient.doKv o.opcode key value) (c, (w, .idle n))
        = (some (.ok ((status.toNat : ℤ), Utf8.decodeReplace result)),
            ({ c with reqId := c.reqId + 1 + 1 }, (w', .idle (n + 1 + 1)))) ∧
      ∃ reqId resp, o.exec reqId w = some (resp, w') := by
  obtain ⟨t, hroute, hrun⟩ := run_doKv_connected (n := n) hcut hnet hreach hreadable o.opcode key value
    (by omega)
  rw [hkey] at hroute
  have howner : ownerOf w.1.tablets o.key = t.nodeId := by rw [ownerOf, hroute]; rfl
  -- The node that the table names is the one whose store holds the key's value in `σ`.
  have hview : (w.2.nodes t.nodeId).lookup o.key = σ o.key := by
    rw [← hrefines.view, ← howner]
    rfl
  obtain ⟨d, hhandle, -⟩ := (hrefines.works t.nodeId).handle hfits (UInt32.ofNat (c.reqId + 1))
  rw [ClientOp.answer_congr hview] at hhandle
  obtain ⟨status, result, hanswer, hnot, hresult⟩ : ∃ status result, o.answer σ = status :: result ∧
      status ≠ ST_NOT_MY_SHARD ∧ 15 + result.length < 2 ^ 32 := by
    cases o with
    | put k v => exact ⟨ST_OK, [], rfl, by decide, by norm_num⟩
    | delete k => exact ⟨ST_OK, [], rfl, by decide, by norm_num⟩
    | get k =>
      rw [ClientOp.answer]
      rcases hk : σ k with _ | v
      · exact ⟨ST_NOT_FOUND, [], rfl, by decide, by norm_num⟩
      · exact ⟨ST_OK, v, rfl, by decide, hvalues k v hk⟩
  rw [hanswer] at hhandle
  refine ⟨status, result, (w.1, { w.2 with nodes := Function.update w.2.nodes t.nodeId d }), hanswer,
    ?_, UInt32.ofNat (c.reqId + 1), status :: result, ?_⟩
  · rw [hrun, ← close_idle]
    exact PyEnvironment.run_closing (@run_exchange_served net cut w { c with reqId := c.reqId + 1 }
      (n + 1) key value o hkey hvalue hcut hfits hid t.nodeId status result d hhandle hnot hresult)
  · simp only [ClientOp.exec, hroute, hhandle, Option.bind_eq_bind, Option.bind_some]
    rfl

/-- Otherwise `struct.error` is raised, and nothing has changed. -/
theorem run_doKv_error (hkey : encode key = o.key) (hvalue : encode value = o.value)
    (h : ¬(o.Fits ∧ c.reqId + 1 < 2 ^ 32)) :
    ∃ k m, (net.pyEnv cut).run (LekvClient.doKv o.opcode key value) (c, (w, .idle n))
      = (some (.error .structError), ({ c with reqId := k }, (w, .idle m))) := by
  by_cases hid : c.reqId < 2 ^ 32
  · obtain ⟨t, -, hrun⟩ := run_doKv_connected (n := n) hcut hnet hreach hreadable o.opcode key value hid
    obtain ⟨k, hk⟩ := @run_exchange_error net cut { c with reqId := c.reqId + 1 } (n + 1) key value o
      hkey hvalue h (w, .one (n + 1) ⟨.node t.nodeId, []⟩)
    refine ⟨k, n + 1 + 1, ?_⟩
    rw [hrun, ← close_idle]
    exact PyEnvironment.run_closing hk
  · have hfetch := run_fetchRouteTable_served (n := n) hcut hnet hreach hreadable
    rw [if_neg hid] at hfetch
    exact ⟨c.reqId + 1, n + 1, by rw [LekvClient.doKv, PyEnvironment.run_bind_error hfetch]⟩

end Calls

end Exchange

end LeKV
