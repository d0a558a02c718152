import OflMotes.Gateway.Pktdump
import OflMotes.Lib.Run

/-! The radio of the nodes: how they configure the network interface, switch the radio on and off,
and send their frames. What they call of RIOT is not part of this repository: it is a parameter, and
what is expected of it is named. -/
namespace OflMotes.Node
open Ascii Gateway

/-- The values of `NETOPT_STATE` that the nodes use; the driver has others. -/
inductive NetoptState
  | off
  | idle
  | tx
  | reset
  | other
  deriving DecidableEq

/-- The options of the network interface that the nodes set. -/
structure Netif where
  state : NetoptState
  channel : Int16
  nid : Int16
  addressLong : List UInt8
  txPower : Int16
  autoack : Bool
  ackReq : Bool
  deriving DecidableEq

/-- An option with the data that is handed to `gnrc_netapi_set`. -/
inductive Netopt
  | state (val : NetoptState)
  | channel (val : Int16)
  | nid (val : Int16)
  | addressLong (val : List UInt8)
  | txPower (val : Int16)
  | autoack (val : Bool)
  | ackReq (val : Bool)
  deriving DecidableEq

/-- The interface with this option and no other change. -/
def Netif.put (n : Netif) : Netopt → Netif
  | .state val => { n with state := val }
  | .channel val => { n with channel := val }
  | .nid val => { n with nid := val }
  | .addressLong val => { n with addressLong := val }
  | .txPower val => { n with txPower := val }
  | .autoack val => { n with autoack := val }
  | .ackReq val => { n with ackReq := val }

/-- What the nodes call of RIOT and its driver: whether there is an interface, what
`gnrc_netapi_get` reads of its state, what `gnrc_netapi_set`, and nothing else, makes of its options,
how an address is read, the constant `KW2XDRF_OUTPUT_POWER_MAX`, whether the UART is initialised, the
level of the modem's interrupt line each time it is polled, and for each call of `data_tx` whether it
gets a packet and a header, and what `gnrc_netapi_send` returns. -/
structure Driver where
  netifIter : Bool
  netapiGet : Netif → NetoptState
  netapiSet : Netif → Netopt → Netif
  addrFromStr : List UInt8 → List UInt8
  outputPowerMax : Int16
  uartInit : Bool
  irqPin : ℕ → Bool
  pktbufAdd : ℕ → Bool
  hdrBuild : ℕ → Bool
  netapiSend : ℕ → Int32

namespace Driver

/-- `gnrc_netif_addr_from_str` reads an address written as hexadecimal bytes with colons. -/
def ReadsAddresses (d : Driver) : Prop :=
  ∀ a s, a.length = 8 → ColonHex a s → d.addrFromStr s = a

/-- There is an interface. It tells its state, takes every option, with a reset that may change all
of them, and reads its address. -/
structure Works (d : Driver) : Prop where
  iter : d.netifIter = true
  get : ∀ n, d.netapiGet n = n.state
  set : ∀ n o, o ≠ .state .reset → d.netapiSet n o = n.put o
  reads : d.ReadsAddresses

/-- The packet buffer has room, and the interface takes every packet. -/
structure Accepts (d : Driver) : Prop where
  packet : ∀ n, d.pktbufAdd n = true
  header : ∀ n, d.hdrBuild n = true
  send : ∀ n, 1 ≤ d.netapiSend n

/-- The modem's interrupt line is low at least once in `w + 1` polls. -/
def Wakes (d : Driver) (w : ℕ) : Prop := ∀ n, ∃ k ≤ w, d.irqPin (n + k) = false

/-- A driver that works and accepts everything, leaves the options alone at a reset, and keeps the
interrupt line high for every other poll. -/
def plain : Driver where
  netifIter := true
  netapiGet n := n.state
  netapiSet n o := if o = .state .reset then n else n.put o
  addrFromStr s := (s.splitOn (byte ':')).flatMap fun g => (hexDecode g).getD []
  outputPowerMax := 8
  uartInit := true
  irqPin n := n % 2 = 1
  pktbufAdd _ := true
  hdrBuild _ := true
  netapiSend _ := 1

theorem plain_readsAddresses : plain.ReadsAddresses := by
  rintro a s ha ⟨gs, rfl, hgs⟩
  have hne : gs ≠ [] := by
    rintro rfl
    rw [← hgs.length_eq] at ha
    contradiction
  have hread : (∀ g ∈ gs, byte ':' ∉ g) ∧ (gs.flatMap fun g => (hexDecode g).getD []) = a := by
    clear ha hne
    induction hgs with
    | nil => exact ⟨by simp, rfl⟩
    | @cons g b gs a hg _ ih =>
      refine ⟨List.forall_mem_cons.mpr ⟨?_, ih.1⟩, ?_⟩
      · exact notMem_of_hexVal (by decide) (hexVal_of_hexDecode hg)
      · rw [List.flatMap_cons, hg, ih.2]
        rfl
  simp only [plain]
  rw [List.splitOn_intercalate _ hread.1 hne]
  exact hread.2

theorem plain_works : plain.Works := ⟨rfl, fun _ => rfl, fun _ _ h => if_neg h, plain_readsAddresses⟩

theorem plain_accepts : plain.Accepts := ⟨fun _ => rfl, fun _ => rfl, fun _ => Int32.le_refl 1⟩

theorem plain_wakes : plain.Wakes 1 := by
  intro n
  rcases Nat.mod_two_eq_zero_or_one n with h | h
  · exact ⟨0, Nat.zero_le 1, by simp [plain, h]⟩
  · exact ⟨1, le_rfl, by simp [plain, Nat.add_mod, h]⟩

end Driver

/-- How a call of `data_tx` ends: with one of its three errors, or with the packet on its way. -/
inductive TxResult
  | packetBufferFull
  | headerBufferFull
  | unableToSend
  | sent
  deriving DecidableEq

/-- The end of the call of `data_tx` with this number. -/
def Driver.txResult (d : Driver) (n : ℕ) : TxResult :=
  if d.pktbufAdd n = false then .packetBufferFull
  else if d.hdrBuild n = false then .headerBufferFull
  else if d.netapiSend n < 1 then .unableToSend
  else .sent

theorem Driver.Accepts.txResult {d : Driver} (h : d.Accepts) (n : ℕ) : d.txResult n = .sent := by
  have hsend : ¬ d.netapiSend n < 1 := Int32.not_lt.mpr (h.send n)
  simp [Driver.txResult, h.packet, h.header, hsend]

/-- The interface, and the output that holds the modem in reset while it is low. -/
structure Radio where
  netif : Netif
  rstPin : Bool

/-- A radio that is off at boot. -/
def Radio.offAtBoot : Radio := ⟨⟨.off, 26, 0, [], 0, true, true⟩, false⟩

/-- The source address that `data_tx` puts into the header of a frame. -/
def srcAddr (nodeId : UInt8) : List UInt8 := [0, 0, 0, 0, 0, 0, 0, nodeId]

/-- The destination address, which is the gateway's. -/
def dstAddr : List UInt8 := [0, 0, 0, 0, 0, 0, 0, 1]

/-- A frame as `data_tx` makes it, and what becomes of it: no payload where its buffer is not
allocated; the options of the interface, the power outputs of the meters and the number of the cycle
as they are at that moment. -/
structure Frame where
  payload : Option (List UInt8)
  src : List UInt8
  dst : List UInt8
  result : TxResult
  netif : Netif
  powerPort1 : Bool
  powerPort2 : Bool
  cycle : ℕ

/-- `sprintf(src, "00:00:00:00:00:00:00:%02x", NODE_ID)` -/
def addressText (nodeId : UInt8) : List UInt8 := ascii "00:00:00:00:00:00:00:" ++ hexPairLower nodeId

/-- The frames that leave the node. -/
def sentFrames (fs : List Frame) : List Frame := fs.filter fun f => f.result = .sent

section
variable (d : Driver) (nodeId : UInt8)

/-- `net_config` of `node-teleinfo` and of `node-bme280`, on the first interface. -/
def netConfig (n : Netif) : Netif :=
  if d.netifIter = false then n
  else
    let n := d.netapiSet n (.channel 11)
    let val := Int16.ofNat 0xF00D
    let n := d.netapiSet n (.nid val)
    let out := d.addrFromStr (addressText nodeId)
    let n := if out.length = 0 then n
      else
        let n := d.netapiSet n (.addressLong out)
        d.netapiSet n (.nid val)
    d.netapiSet n (.txPower d.outputPowerMax)

/-- `prepare_all` of `mote-teleinfo`, as far as the network is concerned. -/
def prepareAll (n : Netif) : Netif :=
  if d.uartInit = false then n
  else if d.netifIter = false then n
  else
    let n := d.netapiSet n (.channel 11)
    let n := d.netapiSet n (.nid (Int16.ofNat 0xF00D))
    let out := d.addrFromStr (addressText nodeId)
    if out.length = 0 then n else d.netapiSet n (.addressLong out)

/-- `radio_on`: a radio that is off is reset, set to idle and configured; any other is left alone.
Only one of the two programs also disables the acknowledgements. -/
def radioOnWith (disableAcks : Bool) (r : Radio) : Radio :=
  if d.netapiGet r.netif = .off then
    let n := d.netapiSet r.netif (.state .reset)
    let n := d.netapiSet n (.state .idle)
    let n := if disableAcks then
        let n := d.netapiSet n (.autoack false)
        d.netapiSet n (.ackReq false)
      else n
    ⟨netConfig d nodeId n, true⟩
  else r

/-- `radio_off` -/
def radioOff (r : Radio) : Radio :=
  let netif := if d.netapiGet r.netif ≠ .off then d.netapiSet r.netif (.state .off) else r.netif
  ⟨netif, false⟩

end

/-- `radio_on` of `node-teleinfo`, behind the loop in which it waits for the modem. -/
def NodeTeleinfo.radioOn (d : Driver) (nodeId : UInt8) : Radio → Radio := radioOnWith d nodeId true

/-- `radio_on` of `node-bme280`, which does not wait. -/
def Bme280.radioOn (d : Driver) (nodeId : UInt8) : Radio → Radio := radioOnWith d nodeId false

/-- The interface has the channel and the PAN of the network and the node's own address. -/
structure Joined (nodeId : UInt8) (n : Netif) : Prop where
  channel : n.channel = 11
  nid : n.nid = Int16.ofNat 0xF00D
  address : n.addressLong = srcAddr nodeId

theorem colonHex_addressText (nodeId : UInt8) : ColonHex (srcAddr nodeId) (addressText nodeId) := by
  refine ⟨[ascii "00", ascii "00", ascii "00", ascii "00", ascii "00", ascii "00", ascii "00",
    hexPairLower nodeId], rfl, ?_⟩
  have hzero : hexDecode (ascii "00") = some [0] := by decide
  exact .cons hzero (.cons hzero (.cons hzero (.cons hzero (.cons hzero (.cons hzero (.cons hzero
    (.cons (hexDecode_hexPairLower nodeId) .nil)))))))

/-- Where every packet is accepted, every frame leaves the node. -/
theorem Driver.Accepts.sentFrames_eq {d : Driver} (h : d.Accepts) {fs : List Frame}
    (hfs : ∀ f ∈ fs, ∃ n, f.result = d.txResult n) : sentFrames fs = fs := by
  refine List.filter_eq_self.mpr fun f hf => ?_
  obtain ⟨n, hn⟩ := hfs f hf
  exact decide_eq_true (hn.trans (h.txResult n))

/-- The same of a run in which each step makes at most one frame. -/
theorem Driver.Accepts.sentFrames_run {d : Driver} (h : d.Accepts) {σ ε : Type} {step : σ → ε → σ}
    {frames : σ → List Frame} (hstep : ∀ s e, frames (step s e) = frames s ∨
      ∃ f, frames (step s e) = frames s ++ [f] ∧ f.result = d.txResult (frames s).length)
    {s : σ} (hs : frames s = []) (es : List ε) :
    sentFrames (frames (Run.run step s es)) = frames (Run.run step s es) := by
  refine h.sentFrames_eq ?_
  refine Run.run_invariant (I := fun s => ∀ f ∈ frames s, ∃ n, f.result = d.txResult n)
    (fun s e hall => ?_) (by simp [hs]) es
  rcases hstep s e with hsame | ⟨g, hframes, hg⟩
  · rw [hsame]
    exact hall
  · rw [hframes]
    intro f hf
    rcases List.mem_append.mp hf with hf | hf
    · exact hall f hf
    · exact ⟨_, List.mem_singleton.mp hf ▸ hg⟩

section
variable {d : Driver} (hd : d.Works) (nodeId : UInt8)
include hd

theorem addrFromStr_addressText : d.addrFromStr (addressText nodeId) = srcAddr nodeId :=
  hd.reads _ _ rfl (colonHex_addressText nodeId)

/-- `net_config` sets these four options, whatever they were before, and no others. -/
theorem netConfig_eq (n : Netif) : netConfig d nodeId n = { n with
    channel := 11
    nid := Int16.ofNat 0xF00D
    addressLong := srcAddr nodeId
    txPower := d.outputPowerMax } := by
  unfold netConfig
  rw [addrFromStr_addressText hd nodeId, hd.iter]
  simp (disch := simp) only [hd.set]
  rfl

theorem prepareAll_eq (huart : d.uartInit = true) (n : Netif) : prepareAll d nodeId n = { n with
    channel := 11
    nid := Int16.ofNat 0xF00D
    addressLong := srcAddr nodeId } := by
  unfold prepareAll
  rw [addrFromStr_addressText hd nodeId, hd.iter, huart]
  simp (disch := simp) only [hd.set]
  rfl

theorem joined_netConfig (n : Netif) : Joined nodeId (netConfig d nodeId n) := by
  rw [netConfig_eq hd]
  exact ⟨rfl, rfl, rfl⟩

/-- A radio that was off is idle and configured afterwards; the rest is as the reset left it. -/
theorem radioOnWith_off (disableAcks : Bool) {r : Radio} (hoff : r.netif.state = .off) :
    radioOnWith d nodeId disableAcks r = ⟨{ d.netapiSet r.netif (.state .reset) with
      state := .idle
      channel := 11
      nid := Int16.ofNat 0xF00D
      addressLong := srcAddr nodeId
      txPower := d.outputPowerMax
      autoack := !disableAcks && (d.netapiSet r.netif (.state .reset)).autoack
      ackReq := !disableAcks && (d.netapiSet r.netif (.state .reset)).ackReq }, true⟩ := by
  have hidle (n : Netif) : d.netapiSet n (.state .idle) = { n with state := .idle } :=
    hd.set n _ (by simp)
  have hautoack (n : Netif) : d.netapiSet n (.autoack false) = { n with autoack := false } :=
    hd.set n _ (by simp)
  have hackReq (n : Netif) : d.netapiSet n (.ackReq false) = { n with ackReq := false } :=
    hd.set n _ (by simp)
  rw [radioOnWith, if_pos ((hd.get _).trans hoff)]
  simp only [netConfig_eq hd, hidle, hautoack, hackReq]
  cases disableAcks <;> rfl

theorem radioOnWith_of_ne (disableAcks : Bool) {r : Radio} (hoff : r.netif.state ≠ .off) :
    radioOnWith d nodeId disableAcks r = r := by
  rw [radioOnWith, hd.get, if_neg hoff]

omit nodeId in
theorem radioOff_state (r : Radio) : (radioOff d r).netif.state = .off := by
  unfold radioOff
  rw [hd.get, hd.set _ _ (by simp)]
  split_ifs with h
  · rfl
  · simpa using h

end

end OflMotes.Node
