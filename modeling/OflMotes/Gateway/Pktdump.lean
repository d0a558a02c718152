import OflMotes.Gateway.Serialworker

/-! `pktdump.c` of the gateway firmware: received packets are printed on the serial line as
frames. The counter of the payload loop is 8 bits wide, so the loop is run with fuel. -/
namespace OflMotes.Gateway
open Ascii Framing Fields

/-- The values of `p` in the rounds of `for (uint8_t p = ..; p < size; p++)`; none while the fuel
does not reach the end of the loop. -/
def forU8 (size : ℕ) : ℕ → UInt8 → Option (List UInt8)
  | 0, _ => none
  | fuel + 1, p =>
    if p.toNat < size then (forU8 size fuel (p + 1)).map (p :: ·) else some []

/-- The members of `gnrc_netif_hdr_t` that are printed. -/
structure NetifHdr where
  srcAddr : List UInt8
  lqi : UInt8
  rssi : Int16
  deriving DecidableEq

/-- A snip of a packet by its type. -/
inductive Snip
  | undef (data : List UInt8)
  | netif (hdr : NetifHdr)
  | other
  deriving DecidableEq

section
variable (addrToStr : List UInt8 → List UInt8) (fuel : ℕ)

/-- What `_dump` prints for one snip. -/
def dumpSnip : Snip → Option (List UInt8)
  | .undef data =>
    (forU8 data.length fuel 0).map fun ps =>
      ps.flatMap (fun p => hexPair (data.getD p.toNat 0)) ++ ascii ";"
  | .netif hdr =>
    some (ascii "SMAC=" ++ addrToStr hdr.srcAddr ++ ascii ";LQI=" ++ decimal hdr.lqi.toNat ++
      ascii ";RSSI=" ++ signed hdr.rssi.toInt)
  | .other => some []

/-- `_dump`: the text printed for a packet, its snips in order. -/
def dump (pkt : List Snip) : Option (List UInt8) :=
  (pkt.mapM (dumpSnip addrToStr fuel)).map fun ts => ascii "<PAYLOAD=" ++ ts.flatten ++ ascii ">\n"

/-- The messages that reach `_eventloop`. -/
inductive Msg
  | rcv (pkt : List Snip)
  | snd (pkt : List Snip)
  | getOrSet
  | unexpected

/-- What `_eventloop` prints while it handles one message. -/
def eventloop : Msg → Option (List UInt8)
  | .rcv pkt => (dump addrToStr fuel pkt).map (ascii "DEBUG: data received:\n" ++ ·)
  | .snd pkt => dump addrToStr fuel pkt
  | .getOrSet => some []
  | .unexpected => some (ascii "PKTDUMP: received something unexpected\n")

end

/-- The rounds from index `k` on, as long as the counter does not wrap around. -/
theorem forU8_range' {k d fuel : ℕ} (h : k + d ≤ 255) (hfuel : d < fuel) :
    forU8 (k + d) fuel (UInt8.ofNat k) = some ((List.range' k d).map UInt8.ofNat) := by
  obtain ⟨n, rfl⟩ := Nat.exists_eq_succ_of_ne_zero (Nat.ne_of_gt (Nat.zero_lt_of_lt hfuel))
  have hk : (UInt8.ofNat k).toNat = k := by
    rw [UInt8.toNat_ofNat']
    omega
  induction d generalizing k n with
  | zero => rw [forU8, if_neg (by omega)]; rfl
  | succ d ih =>
    obtain ⟨m, rfl⟩ := Nat.exists_eq_succ_of_ne_zero (show n ≠ 0 by omega)
    have hnext : UInt8.ofNat k + 1 = UInt8.ofNat (k + 1) := UInt8.ofNat_add k 1 |>.symm
    have hrest := ih (k := k + 1) (by omega) m (by omega)
      (by rw [UInt8.toNat_ofNat']; omega)
    rw [show k + 1 + d = k + (d + 1) by omega] at hrest
    rw [forU8, if_pos (by omega), hnext, hrest, List.range'_succ]
    rfl

/-- The loop visits the indices one after the other if there are at most 255. -/
theorem forU8_eq_some {size fuel : ℕ} (h : size ≤ 255) (hfuel : size < fuel) :
    forU8 size fuel 0 = some ((List.range size).map UInt8.ofNat) := by
  have hrounds := forU8_range' (k := 0) (d := size) (by omega) hfuel
  rw [Nat.zero_add, ← List.range_eq_range'] at hrounds
  exact hrounds

/-- The counter never reaches a size of 256 or more. -/
theorem forU8_eq_none {size : ℕ} (h : 256 ≤ size) (fuel : ℕ) (p : UInt8) :
    forU8 size fuel p = none := by
  induction fuel generalizing p with
  | zero => rfl
  | succ fuel ih =>
    have hp := p.toNat_lt
    rw [forU8, if_pos (by omega), ih]
    rfl

/-- `gnrc_netif_addr_to_str`, which is not part of this repository, prints the bytes of an
address as pairs of hexadecimal digits separated by colons. -/
def ColonHex (addr s : List UInt8) : Prop :=
  ∃ gs, s = [byte ':'].intercalate gs ∧ List.Forall₂ (fun g a => hexDecode g = some [a]) gs addr

/-- The upper-case spelling of an address. -/
def colonHexText (addr : List UInt8) : List UInt8 := [byte ':'].intercalate (addr.map hexPair)

theorem colonHex_colonHexText (addr : List UInt8) : ColonHex addr (colonHexText addr) := by
  refine ⟨addr.map hexPair, rfl, ?_⟩
  rw [List.forall₂_map_left_iff, List.forall₂_same]
  intro a _
  simpa using hexDecode_hexPair [a]

/-- A received radio packet: the payload snip followed by the link-layer header. -/
structure Received where
  data : List UInt8
  src : List UInt8
  lqi : UInt8
  rssi : Int16

def Received.pkt (r : Received) : List Snip := [.undef r.data, .netif ⟨r.src, r.lqi, r.rssi⟩]

/-- The sizes of a packet off the radio: at most 255 bytes and an 8-byte source address. -/
def Received.WellFormed (r : Received) : Prop := r.data.length ≤ 255 ∧ r.src.length = 8

/-- What is printed of the link-layer header. -/
def Received.link (addrToStr : List UInt8 → List UInt8) (r : Received) : List UInt8 :=
  ascii "SMAC" ++ byte '=' :: (addrToStr r.src ++
    byte ';' :: (ascii "LQI" ++ byte '=' :: (decimal r.lqi.toNat ++
      byte ';' :: (ascii "RSSI" ++ byte '=' :: signed r.rssi.toInt))))

/-- What stands between the marker and the closing `>` of the printed frame. -/
def Received.body (addrToStr : List UInt8 → List UInt8) (r : Received) : List UInt8 :=
  r.data.flatMap hexPair ++ byte ';' :: r.link addrToStr

section
variable {addrToStr : List UInt8 → List UInt8} {fuel : ℕ}

theorem dumpSnip_undef {data : List UInt8} (hlen : data.length ≤ 255) (hfuel : 256 ≤ fuel) :
    dumpSnip addrToStr fuel (.undef data) = some (data.flatMap hexPair ++ ascii ";") := by
  have hdata : (List.range data.length).map
      (fun i => data.getD (UInt8.ofNat i).toNat 0) = data := by
    apply List.ext_getElem
    · simp
    · intro i _ hi
      have hmod : i % 256 = i := by omega
      simp [hmod, hi]
  have hpairs : (List.range data.length).flatMap
      (fun i => hexPair (data.getD (UInt8.ofNat i).toNat 0)) = data.flatMap hexPair := by
    conv_rhs => rw [← hdata, List.flatMap_map]
  rw [dumpSnip, forU8_eq_some hlen (by omega), Option.map_some, List.flatMap_map, hpairs]

theorem exists_mapM_iff {α β : Type*} {f : α → Option β} {l : List α} :
    (∃ ts, l.mapM f = some ts) ↔ ∀ a ∈ l, ∃ b, f a = some b := by
  induction l with
  | nil => simp
  | cons a l ih =>
    rw [List.forall_mem_cons, ← ih, List.mapM_cons]
    cases f a with
    | none => simp
    | some b => cases l.mapM f <;> simp

/-- `_dump` ends exactly on the packets that have no payload snip of more than 255 bytes. -/
theorem dump_ends_iff (pkt : List Snip) : (∃ fuel text, dump addrToStr fuel pkt = some text) ↔
    ∀ data, .undef data ∈ pkt → data.length ≤ 255 := by
  constructor
  · rintro ⟨fuel, text, htext⟩ data hmem
    obtain ⟨ts, hts, -⟩ := Option.map_eq_some_iff.mp htext
    obtain ⟨t, ht⟩ := exists_mapM_iff.mp ⟨ts, hts⟩ _ hmem
    by_contra hlen
    rw [dumpSnip, forU8_eq_none (by omega), Option.map_none] at ht
    contradiction
  · intro h
    have hsnips : ∃ ts, pkt.mapM (dumpSnip addrToStr 256) = some ts := by
      rw [exists_mapM_iff]
      intro snip hsnip
      cases snip with
      | undef data => exact ⟨_, dumpSnip_undef (h data hsnip) le_rfl⟩
      | netif hdr => exact ⟨_, rfl⟩
      | other => exact ⟨_, rfl⟩
    obtain ⟨ts, hts⟩ := hsnips
    exact ⟨256, _, congrArg (Option.map _) hts⟩

/-- The loop ends on every payload of up to 255 bytes, and the packet is printed as one frame. -/
theorem dump_received {r : Received} (hr : r.WellFormed) (hfuel : 256 ≤ fuel) :
    dump addrToStr fuel r.pkt = some (payloadFrame.frame (r.body addrToStr)) := by
  have hsnips : r.pkt.mapM (dumpSnip addrToStr fuel) = some
      [r.data.flatMap hexPair ++ ascii ";",
        ascii "SMAC=" ++ addrToStr r.src ++ ascii ";LQI=" ++ decimal r.lqi.toNat ++
          ascii ";RSSI=" ++ signed r.rssi.toInt] := by
    simp only [Received.pkt, List.mapM_cons, List.mapM_nil, dumpSnip_undef hr.1 hfuel]
    rfl
  rw [dump, hsnips]
  simp [Delim.frame, Delim.marker, payloadFrame, Received.body, Received.link, ascii]

theorem colonHex_notMem {addr s : List UInt8} (h : ColonHex addr s) {b : UInt8}
    (hb : hexVal b = none) (hc : b ≠ byte ':') : b ∉ s := by
  obtain ⟨gs, rfl, hgs⟩ := h
  induction hgs with
  | nil => simp
  | @cons g a gs addr hg _ ih =>
    have hbg : b ∉ g := notMem_of_hexVal hb (hexVal_of_hexDecode hg)
    cases gs with
    | nil => simpa using hbg
    | cons g' gs => simp_all [List.intercalate_cons_cons]

/-- The fields of the link-layer header, read back from the text. -/
theorem headerFields_link {r : Received} (hr : r.WellFormed)
    (haddr : ∀ a, a.length = 8 → ColonHex a (addrToStr a)) :
    headerFields (r.link addrToStr) = [(ascii "SMAC", addrToStr r.src),
      (ascii "LQI", decimal r.lqi.toNat), (ascii "RSSI", signed r.rssi.toInt)] := by
  have hne : byte ';' ≠ byte '=' := by decide
  have hsemi : hexVal (byte ';') = none := by decide
  have heq : hexVal (byte '=') = none := by decide
  have hsrc := haddr r.src hr.2
  rw [headerFields, Received.link,
    fields_cons _ _ (by decide)
      ⟨colonHex_notMem hsrc hsemi (by decide), colonHex_notMem hsrc heq (by decide)⟩ hne,
    fields_cons _ _ (by decide) ⟨notMem_decimal hsemi _, notMem_decimal heq _⟩ hne,
    fields_singleton _ _ (by decide)
      ⟨notMem_signed hsemi (by decide) _, notMem_signed heq (by decide) _⟩ hne]

theorem body_isBody {r : Received} (hr : r.WellFormed)
    (haddr : ∀ a, a.length = 8 → ColonHex a (addrToStr a)) :
    payloadFrame.Body (r.body addrToStr) := by
  have hstop : hexVal payloadFrame.stop = none := by decide
  have hsrc := colonHex_notMem (haddr r.src hr.2) hstop (by decide)
  have hdata := notMem_flatMap_hexPair hstop r.data
  have hlqi := notMem_decimal hstop r.lqi.toNat
  have hrssi := notMem_signed hstop (by decide) r.rssi.toInt
  have hnames : payloadFrame.stop ∉ ascii "SMAC" ∧ payloadFrame.stop ∉ ascii "LQI" ∧
      payloadFrame.stop ∉ ascii "RSSI" := by decide
  have hseps : payloadFrame.stop ≠ byte ';' ∧ payloadFrame.stop ≠ byte '=' := by decide
  exact ⟨by simp [Received.body],
    by simp [Received.body, Received.link, hsrc, hdata, hlqi, hrssi, hnames, hseps]⟩

end

/-- The decoded packet holds what was received: the payload bytes, the printed address and the
two link measures. -/
def Received.ReadBack (addrToStr : List UInt8 → List UInt8) (r : Received) (p : Packet) : Prop :=
  p.payload = r.data ∧ p.smac = addrToStr r.src ∧ p.lqi = r.lqi.toNat ∧ p.rssi = r.rssi.toInt

section
variable {addrToStr : List UInt8 → List UInt8}

theorem parseInt_lqi (l : UInt8) : (parseInt (decimal l.toNat)).1 = l.toNat := by
  have := l.toNat_lt
  rw [parseInt_digits (decimal_ne_nil _) (isDigit_decimal _) (by rw [numeral_decimal]; omega),
    numeral_decimal]

theorem parseInt_rssi (z : Int16) : (parseInt (signed z.toInt)).1 = z.toInt := by
  have hlo := z.le_toInt
  have hhi := z.toInt_lt
  rw [parseInt_signed (by omega) (by omega)]

/-- A frame is read back, whichever fields stand in front of its own and whatever they set, if
they leave the payload field to it. -/
theorem decodePacket_readBack {r : Received} {raw : List UInt8}
    {fs : List (List UInt8 × List UInt8)}
    (h : headerFields raw = fs ++ [(ascii "SMAC", addrToStr r.src),
        (ascii "LQI", decimal r.lqi.toNat), (ascii "RSSI", signed r.rssi.toInt)]) (now : ℕ) :
    let text := (lastValue (ascii "PAYLOAD") fs).getD []
    let p := decodePacket (.ofRaw raw now)
    p.payload = (hexDecode text).getD text ∧ p.smac = addrToStr r.src ∧
      p.lqi = r.lqi.toNat ∧ p.rssi = r.rssi.toInt := by
  have hpay : payloadText raw = (lastValue (ascii "PAYLOAD") fs).getD [] := by
    rw [payloadText, h, lastValue_append]
    rfl
  have hlast (name v : List UInt8) (hv : lastValue name [(ascii "SMAC", addrToStr r.src),
      (ascii "LQI", decimal r.lqi.toNat), (ascii "RSSI", signed r.rssi.toInt)] = some v) :
      lastValue name (headerFields raw) = some v := by
    rw [h, lastValue_append, hv]
    rfl
  rw [decodePacket_ofRaw]
  refine ⟨by rw [hpay], ?_, ?_, ?_⟩
  · simp only [hlast (ascii "SMAC") _ rfl, Option.getD_some]
  · simp only [headerNumber, hlast (ascii "LQI") _ rfl, Option.map_some, Option.getD_some,
      parseInt_lqi]
  · simp only [headerNumber, hlast (ascii "RSSI") _ rfl, Option.map_some, Option.getD_some,
      parseInt_rssi]

/-- Decoding the raw string of a printed frame gives the received packet back. -/
theorem readBack_body {r : Received} (hr : r.WellFormed)
    (haddr : ∀ a, a.length = 8 → ColonHex a (addrToStr a)) (now : ℕ) :
    r.ReadBack addrToStr (decodePacket (.ofRaw (ascii "PAYLOAD=" ++ r.body addrToStr) now)) := by
  have hne : byte ';' ≠ byte '=' := by decide
  have hsemi := notMem_flatMap_hexPair (b := byte ';') (by decide) r.data
  have heq := notMem_flatMap_hexPair (b := byte '=') (by decide) r.data
  have hraw : ascii "PAYLOAD=" ++ r.body addrToStr =
      ascii "PAYLOAD" ++ byte '=' :: (r.data.flatMap hexPair ++ byte ';' :: r.link addrToStr) := rfl
  have hfields : headerFields (ascii "PAYLOAD=" ++ r.body addrToStr) =
      [(ascii "PAYLOAD", r.data.flatMap hexPair)] ++ headerFields (r.link addrToStr) := by
    rw [hraw, headerFields, fields_cons _ _ (by decide) ⟨hsemi, heq⟩ hne]
    rfl
  rw [headerFields_link hr haddr] at hfields
  have h := decodePacket_readBack hfields now
  have htext : (lastValue (ascii "PAYLOAD") [(ascii "PAYLOAD", r.data.flatMap hexPair)]).getD [] =
      r.data.flatMap hexPair := rfl
  simp only [htext, hexDecode_hexPair, Option.getD_some] at h
  exact h

end

end OflMotes.Gateway
