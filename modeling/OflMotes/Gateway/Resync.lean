import OflMotes.Gateway.EndToEnd

/-! What becomes of an intact frame behind damaged ones. The regexp excludes only `>`, so a frame
that was cut off in front swallows the marker of the next one, whose payload field then carries a
second `=` and is dropped. -/
namespace OflMotes.Gateway
open Ascii Framing Fields

/-- The text of the payload field among the fields that a cut-off frame completed. -/
def remnantPayload (v : List UInt8) : List UInt8 :=
  (lastValue (ascii "PAYLOAD") ((((ascii "PAYLOAD=" ++ v).splitOn (byte ';')).dropLast).filterMap
    (pair (byte '=')))).getD []

/-- What `decode_packet` makes of a payload text: its bytes, or the text itself where it is not
hexadecimal. -/
def payloadBytes (text : List UInt8) : List UInt8 := (hexDecode text).getD text

/-- The damaged text costs a frame with the given payload nothing: it leaves no frame open after
its last `>`, or the one it leaves open has already completed a payload field that happens to
read the same. -/
def Harmless (g data : List UInt8) : Prop :=
  ∀ v, payloadFrame.openBody g = some v → payloadBytes (remnantPayload v) = data

section
variable {addrToStr : List UInt8 → List UInt8}

/-- A piece that ends with a swallowed marker sets no payload: it has two equality signs, or the
marker's `<` in its key. -/
theorem lastValue_swallowed (l : List UInt8) {hex : List UInt8} (hhex : byte '=' ∉ hex) :
    lastValue (ascii "PAYLOAD")
      ([(l ++ ascii "<PAYLOAD") ++ byte '=' :: hex].filterMap (pair (byte '='))) = none := by
  by_cases hl : byte '=' ∈ l
  · obtain ⟨u, w, rfl, -⟩ := List.eq_append_cons_of_mem hl
    have hp := pair_append_append (byte '=') u (w ++ ascii "<PAYLOAD") hex
    simp only [List.append_assoc, List.cons_append] at hp ⊢
    simp [hp]
  · have hk : byte '=' ∉ l ++ ascii "<PAYLOAD" := by
      simp [hl, show byte '=' ∉ ascii "<PAYLOAD" by decide]
    have hp := pair_append (byte '=') hk hhex
    have hne : l ++ ascii "<PAYLOAD" ≠ ascii "PAYLOAD" := by
      intro he
      have hmem : byte '<' ∈ l ++ ascii "<PAYLOAD" := by simp [ascii]
      rw [he] at hmem
      exact absurd hmem (by decide)
    rw [List.filterMap_cons_some hp, List.filterMap_nil]
    exact lastValue_eq_none.mpr fun f hf => by rwa [List.mem_singleton.mp hf]

/-- The header fields of a frame that was swallowed by a cut-off one: its payload field is lost. -/
theorem headerFields_swallowed (r : Received) (v : List UInt8) :
    ∃ fs, headerFields (ascii "PAYLOAD=" ++ (v ++ (payloadFrame.marker ++ r.body addrToStr))) =
        fs ++ headerFields (r.link addrToStr) ∧
      (lastValue (ascii "PAYLOAD") fs).getD [] = remnantPayload v := by
  set hex := r.data.flatMap hexPair with hhex
  have hraw : ascii "PAYLOAD=" ++ (v ++ (payloadFrame.marker ++ r.body addrToStr)) =
      ((ascii "PAYLOAD=" ++ v) ++ (ascii "<PAYLOAD=" ++ hex)) ++ byte ';' :: r.link addrToStr := by
    simp [Received.body, payloadFrame, Delim.marker, ascii, hhex]
  have hsemi : byte ';' ∉ ascii "<PAYLOAD=" ++ hex := by
    have h1 : byte ';' ∉ ascii "<PAYLOAD=" := by decide
    have h2 := notMem_flatMap_hexPair (b := byte ';') (by decide) r.data
    simp [h1, h2, hhex]
  refine ⟨_, by rw [hraw, headerFields, fields_append_cons]; rfl, ?_⟩
  rw [fields, splitOn_append_of_notMem _ hsemi, List.filterMap_append, lastValue_append,
    remnantPayload]
  have hpiece (l : List UInt8) : l ++ (ascii "<PAYLOAD=" ++ hex) =
      (l ++ ascii "<PAYLOAD") ++ byte '=' :: hex := by simp [ascii]
  rw [hpiece, lastValue_swallowed _ (notMem_flatMap_hexPair (by decide) r.data), Option.none_or]

/-- The frame found behind damaged text decodes to the printed link measures, and to the printed
payload exactly if the damage is harmless. -/
theorem readBack_reopen_iff {r : Received} (hr : r.WellFormed)
    (haddr : ∀ a, a.length = 8 → ColonHex a (addrToStr a)) (g : List UInt8) (now : ℕ) :
    r.ReadBack addrToStr (decodePacket
      (.ofRaw (ascii "PAYLOAD=" ++ payloadFrame.reopen g (r.body addrToStr)) now)) ↔
      Harmless g r.data := by
  cases ho : payloadFrame.openBody g with
  | none =>
    have hre : payloadFrame.reopen g (r.body addrToStr) = r.body addrToStr := by
      simp [Delim.reopen, ho]
    rw [hre]
    exact ⟨fun _ v hv => by simp [ho] at hv, fun _ => readBack_body hr haddr now⟩
  | some v =>
    have hre : payloadFrame.reopen g (r.body addrToStr) =
        v ++ (payloadFrame.marker ++ r.body addrToStr) := by simp [Delim.reopen, ho]
    obtain ⟨fs, hfs, htext⟩ := headerFields_swallowed r v
    rw [headerFields_link hr haddr] at hfs
    obtain ⟨hpay, hlink⟩ := decodePacket_readBack hfs now
    rw [htext] at hpay
    rw [hre]
    constructor
    · rintro ⟨hp, -⟩ w hw
      obtain rfl : v = w := Option.some.inj (ho.symm.trans hw)
      exact hpay.symm.trans hp
    · intro h
      exact ⟨hpay.trans (h v ho), hlink⟩

end

/-- A stream with one frame is sent as one packet, whatever the reads. -/
theorem serialworker_single {reads : List Read} {raw : List UInt8}
    (h : rawFrames (stream reads) = [raw]) :
    ∃ s now, serialworker reads = some s ∧ s.sent = [.ofRaw raw now] := by
  have hone : ∀ rs r, rs ++ [r] <+: reads → r.bytes ≠ [] → CompletesAtMostOne rs r := by
    rintro rs r ⟨more, hmore⟩ -
    have hlen := (payloadFrame.extract_prefix_append (stream (rs ++ [r])) (stream more)).length_le
    have hstream : stream reads = stream (rs ++ [r]) ++ stream more := by
      rw [← hmore]; simp [stream]
    have htotal := congrArg List.length h
    rw [hstream] at htotal
    simp only [rawFrames, List.length_map, List.length_singleton] at htotal
    unfold CompletesAtMostOne
    simp only [rawFrames, List.length_map]
    omega
  obtain ⟨s, hs, -, hsent, -⟩ := delivered_of_completesAtMostOne hone
  rw [h] at hsent
  obtain ⟨p, hp, hraw⟩ := List.map_eq_singleton_iff.mp hsent
  refine ⟨s, p.timestamp, hs, ?_⟩
  rw [hp, serialworker_sent_ofRaw hs p (by simp [hp]), ← hraw]
  rfl

/-- Behind text without a complete frame, a printed frame is sent as one packet that decodes to
what was received exactly if the text in front is harmless to it. -/
theorem serialworker_resync_iff (addrToStr : List UInt8 → List UInt8)
    (haddr : ∀ a, a.length = 8 → ColonHex a (addrToStr a)) (fuel : ℕ) (hfuel : 256 ≤ fuel)
    (g f : List UInt8) (hg : payloadFrame.findIndex g = none) (r : Received) (hr : r.WellFormed)
    (hf : dump addrToStr fuel r.pkt = some f) (reads : List Read) (hreads : stream reads = g ++ f) :
    (∃ s p, serialworker reads = some s ∧ s.sent = [p] ∧ r.ReadBack addrToStr (decodePacket p)) ↔
      Harmless g r.data := by
  obtain rfl := Option.some.inj ((dump_received hr hfuel).symm.trans hf)
  have hframes : rawFrames (stream reads) =
      [ascii "PAYLOAD=" ++ payloadFrame.reopen g (r.body addrToStr)] := by
    have h := payloadFrame.extract_append_frame hg (body_isBody hr haddr) []
    rw [List.append_nil] at h
    rw [hreads, rawFrames, h, List.map_cons, rawOf_frame]
    rfl
  obtain ⟨s, now, hs, hsent⟩ := serialworker_single hframes
  rw [← readBack_reopen_iff hr haddr g now]
  constructor
  · rintro ⟨s', p, hs', hp, hback⟩
    obtain rfl : s = s' := Option.some.inj (hs.symm.trans hs')
    obtain rfl : .ofRaw _ now = p := by simpa [hsent] using hp
    exact hback
  · exact fun h => ⟨s, _, hs, hsent, h⟩

/-- Damage that ends with a `>` costs the next frame nothing. -/
theorem serialworker_resync_behind_closed :
    (∃ s p, serialworker [⟨ascii "AD=41;>" ++ payloadFrame.frame
          (Received.body colonHexText ⟨[66], [0, 0, 0, 0, 0, 0, 0, 37], 120, 61⟩), 0⟩] = some s ∧
        s.sent = [p] ∧ Received.ReadBack colonHexText
          ⟨[66], [0, 0, 0, 0, 0, 0, 0, 37], 120, 61⟩ (decodePacket p)) ↔
      Harmless (ascii "AD=41;>") [66] :=
  serialworker_resync_iff colonHexText (fun a _ => colonHex_colonHexText a) 256 le_rfl _ _
    (by decide) ⟨[66], [0, 0, 0, 0, 0, 0, 0, 37], 120, 61⟩ (by simp [Received.WellFormed])
    (dump_received (by simp [Received.WellFormed]) le_rfl) _ (by simp [stream])

/-- A frame cut off inside its payload takes the payload of the next one with it. -/
theorem cut_off_frame_costs_the_next :
    ∃ f s p, dump colonHexText 256
        (Received.pkt ⟨[66], [0, 0, 0, 0, 0, 0, 0, 37], 120, 61⟩) = some f ∧
      payloadFrame.findIndex (ascii "<PAYLOAD=41") = none ∧
      serialworker [⟨ascii "<PAYLOAD=41" ++ f, 0⟩] = some s ∧ s.sent = [p] ∧
      (decodePacket p).payload = [] ∧
      ¬ Received.ReadBack colonHexText ⟨[66], [0, 0, 0, 0, 0, 0, 0, 37], 120, 61⟩
        (decodePacket p) := by
  refine ⟨_, _, _, rfl, by decide, rfl, rfl, by decide, fun h => ?_⟩
  exact absurd h.1 (by decide)

/-- One cut off behind its payload field passes its own payload off as that of the next. -/
example : (serialworker [⟨ascii "<PAYLOAD=41;SMAC" ++ payloadFrame.frame (Received.body colonHexText
      ⟨[66], [0, 0, 0, 0, 0, 0, 0, 37], 120, 61⟩), 0⟩]).map
    (fun s => s.sent.map fun p => (decodePacket p).payload) = some [[65]] := by decide

end OflMotes.Gateway
