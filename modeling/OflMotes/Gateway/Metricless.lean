import OflMotes.Gateway.Deliverable

/-! Packets without a metric. `push_influx` asks whether the datamap is empty only after it has
put the RSSI and the LQI there. -/
namespace OflMotes.Gateway
open Ascii Fields

/-- The payload is no hexadecimal text, or none of its pieces is a key with a value. -/
def Metricless (raw : List UInt8) : Prop :=
  ∀ payload ∈ hexDecode (payloadText raw), payloadFields payload = []

instance (raw : List UInt8) : Decidable (Metricless raw) := by unfold Metricless; infer_instance

/-- A point whose fields are the RSSI and the LQI and no others. -/
def Point.Bare (pt : Point) : Prop := ∀ k, k ∈ pt.fields ↔ k = ascii "LQI" ∨ k = ascii "RSSI"

/-- Nothing is recorded for the frame, wherever it arrives and whatever the database answers: no batch
that is handed to `Write` for it holds a point, and where the writes succeed neither the frame nor one
behind it stays in the queue. -/
def Unrecorded (raw : List UInt8) : Prop :=
  ∀ client : Client, (∀ n, client.newHTTPClient n = true) → ∀ packets i now,
    packets[i]? = some (.ofRaw raw now) → ∃ g, main client packets = some g ∧
      (∀ b ∈ g.calls.tried, b.1 = i → b.2 = []) ∧
      (client.Up → (∀ p ∈ packets, ∃ raw now, p = .ofRaw raw now ∧ Deliverable raw) → g.ps = [])

theorem eq_empty_of_lookup {m : Datamap} (h : ∀ k, m.lookup k = none) : m = ∅ := by
  apply AList.ext
  cases he : m.entries with
  | nil => rfl
  | cons e es =>
    have hmem : m.lookup e.1 = some e.2 := AList.mem_lookup_iff.mpr (by rw [he]; simp)
    rw [h] at hmem
    contradiction

/-- The frames without a metric are those that `decode_packet` leaves with an empty datamap. -/
theorem datamap_eq_empty_iff (raw : List UInt8) (now : ℕ) :
    (decodePacket (.ofRaw raw now)).datamap = ∅ ↔ Metricless raw := by
  constructor
  · intro h payload hpayload
    rw [List.eq_nil_iff_forall_not_mem]
    intro f hf
    have hlook := lookup_decodePacket raw now f.1
    rw [h, AList.lookup_empty, Option.mem_def.mp hpayload, Option.bind_some, eq_comm,
      Option.map_eq_none_iff, lastValue_eq_none] at hlook
    exact hlook f hf rfl
  · intro h
    apply eq_empty_of_lookup
    intro k
    rw [lookup_decodePacket]
    cases hpayload : hexDecode (payloadText raw) with
    | none => rfl
    | some payload => simp [h payload hpayload]

/-- Every point asked for such a packet is bare. -/
theorem bare_of_metricless {raw : List UInt8} (h : Metricless raw) (now : ℕ) :
    (decodePacket (.ofRaw raw now)).stamp.point.Bare := by
  intro k
  have hk := lookup_stamp (decodePacket (.ofRaw raw now)) k
  rw [(datamap_eq_empty_iff raw now).mpr h, AList.lookup_empty] at hk
  change k ∈ (decodePacket (.ofRaw raw now)).stamp.datamap ↔ _
  rw [← AList.lookup_isSome, hk]
  split_ifs with h₁ h₂
  · simp [h₁]
  · simp [h₂]
  · simp [h₁, h₂]

/-- While the database is up, frames that it takes do not wait. -/
theorem main_up {client : Client} (hup : client.Up) {packets : List Packet}
    (hall : ∀ p ∈ packets, ∃ raw now, p = .ofRaw raw now ∧ Deliverable raw) {g : MainState}
    (hg : main client packets = some g) : g.ps = [] := by
  induction packets using List.reverseRecOn generalizing g with
  | nil => exact (Option.some.inj hg) ▸ rfl
  | append_singleton packets p ih =>
    obtain ⟨g', hg', -, -⟩ := lossless_main hup.http packets
    have hps := ih (fun q hq => hall q (by simp [hq])) hg'
    obtain ⟨raw, now, rfl, hraw⟩ := hall p (by simp)
    rw [main, List.foldlM_append, ← main, hg'] at hg
    have hround : mainRound client g' (.ofRaw raw now) = some g := by simpa using hg
    simp only [mainRound, pushInflux, hup.http, if_true, hps, List.nil_append] at hround
    obtain rfl := Option.some.inj hround
    rw [pushLoop_up hup]
    simpa using (accepted_decodePacket_iff raw now).mpr hraw

theorem deliverable_of_metricless {raw : List UInt8} (h : Metricless raw) : Deliverable raw := by
  intro payload hpayload
  rw [h payload hpayload]
  exact ⟨by simp, fun _ _ v hv => by simp [lastValue] at hv⟩

/-- What becomes of an arrival without a metric. -/
theorem main_metricless {client : Client} (hhttp : ∀ n, client.newHTTPClient n = true)
    (packets : List Packet) {i : ℕ} {raw : List UInt8} {now : ℕ}
    (hi : packets[i]? = some (.ofRaw raw now)) (hraw : Metricless raw) :
    ∃ g, main client packets = some g ∧
      (∀ b ∈ g.calls.tried, b.1 = i → ∃ pt, pt.Bare ∧ b.2 = [pt]) ∧
      (∀ a ∈ g.calls.points, a.1 = i → a.2.Bare) ∧
      ((∀ e ∈ g.ps, e.arrival ≠ i) → ∃ pt, pt.Bare ∧ (i, [pt]) ∈ g.calls.written) ∧
      (client.Up → (∀ p ∈ packets, ∃ raw now, p = .ofRaw raw now ∧ Deliverable raw) → g.ps = []) := by
  obtain ⟨g, hg, -, hlossless⟩ := lossless_main hhttp packets
  have hbare := bare_of_metricless hraw now
  have htried : ∀ b ∈ g.calls.tried, b.1 = i → b.2 = [(decodePacket (.ofRaw raw now)).stamp.point] := by
    rintro b hb rfl
    have := hlossless.tried b hb
    rw [hi] at this
    exact (Option.some.inj this).symm
  refine ⟨g, hg, fun b hb hbi => ⟨_, hbare, htried b hb hbi⟩, ?_, fun hgone => ?_, fun hup hall =>
    main_up hup hall hg⟩
  · rintro a ha rfl
    have := hlossless.asked a ha
    rw [hi] at this
    exact (Option.some.inj this) ▸ hbare
  · -- an arrival is written or waits
    have hlt : i < packets.length := (List.getElem?_eq_some_iff.mp hi).1
    have hmem : i ∈ g.calls.written.map Prod.fst ++ g.ps.map (·.arrival) := by
      rw [hlossless.order]
      exact List.mem_range.mpr hlt
    rcases List.mem_append.mp hmem with hw | hw
    · obtain ⟨b, hb, rfl⟩ := List.mem_map.mp hw
      exact ⟨_, hbare, by rw [← htried b (hlossless.subset hb) rfl]; exact hb⟩
    · obtain ⟨e, he, hei⟩ := List.mem_map.mp hw
      exact absurd hei (hgone e he)

/-- A frame without a metric never goes unrecorded. Whatever the database answers, every batch that is
handed to `Write` for it holds a point of its RSSI and its LQI, at every attempt, and it leaves the
queue only with that point written; so it does while the database is up, and no packet waits behind
it. -/
theorem metricless_not_skipped (raw : List UInt8) (hraw : Metricless raw) :
    ¬ Unrecorded raw ∧
    ∀ client : Client, (∀ n, client.newHTTPClient n = true) → ∀ packets i now,
      packets[i]? = some (.ofRaw raw now) → ∃ g, main client packets = some g ∧
        (∀ b ∈ g.calls.tried, b.1 = i → ∃ pt, pt.Bare ∧ b.2 = [pt]) ∧
        (∀ a ∈ g.calls.points, a.1 = i → a.2.Bare) ∧
        ((∀ e ∈ g.ps, e.arrival ≠ i) → ∃ pt, pt.Bare ∧ (i, [pt]) ∈ g.calls.written) ∧
        (client.Up → (∀ p ∈ packets, ∃ raw now, p = .ofRaw raw now ∧ Deliverable raw) →
          g.ps = [] ∧ ∃ pt, pt.Bare ∧ (i, [pt]) ∈ g.calls.written) := by
  constructor
  · intro h
    obtain ⟨g, hg, -, -, hleft, hup⟩ := main_metricless upClient_up.http
      [.ofRaw raw 0] (i := 0) rfl hraw
    obtain ⟨_, hg', hnone, -⟩ := h upClient (fun _ => rfl) [.ofRaw raw 0] 0 0 rfl
    obtain ⟨_, hg'', -, hlossless⟩ := lossless_main upClient_up.http [.ofRaw raw 0]
    obtain rfl := Option.some.inj (hg.symm.trans hg')
    obtain rfl := Option.some.inj (hg.symm.trans hg'')
    have hps : g.ps = [] := hup upClient_up fun p hp =>
      ⟨raw, 0, List.mem_singleton.mp hp, deliverable_of_metricless hraw⟩
    obtain ⟨pt, -, hpt⟩ := hleft (by simp [hps])
    exact List.cons_ne_nil _ _ (hnone _ (hlossless.subset hpt) rfl)
  · intro client hhttp packets i now hi
    obtain ⟨g, hg, htried, hasked, hleft, hup⟩ := main_metricless hhttp packets hi hraw
    refine ⟨g, hg, htried, hasked, hleft, fun hclient hall => ?_⟩
    have hps := hup hclient hall
    exact ⟨hps, hleft (by simp [hps])⟩

/-- A payload that is no hexadecimal text, between two others: all three are written. -/
theorem metricless_not_skipped_garbled :
    ¬ Unrecorded (ascii "PAYLOAD=4Z;SMAC=25;RSSI=-61") ∧
    ∃ g, main upClient [.ofRaw (ascii "PAYLOAD=413A31;SMAC=25") 1,
        .ofRaw (ascii "PAYLOAD=4Z;SMAC=25;RSSI=-61") 2, .ofRaw (ascii "PAYLOAD=") 3] = some g ∧
      g.ps = [] ∧ ∃ pt, pt.Bare ∧ (1, [pt]) ∈ g.calls.written := by
  obtain ⟨hnot, hall⟩ := metricless_not_skipped (ascii "PAYLOAD=4Z;SMAC=25;RSSI=-61")
    (by decide +kernel)
  obtain ⟨g, hg, -, -, -, hup⟩ := hall upClient (fun _ => rfl)
    [.ofRaw (ascii "PAYLOAD=413A31;SMAC=25") 1, .ofRaw (ascii "PAYLOAD=4Z;SMAC=25;RSSI=-61") 2,
      .ofRaw (ascii "PAYLOAD=") 3] 1 2 rfl
  refine ⟨hnot, g, hg, hup upClient_up fun p hp => ?_⟩
  simp only [List.mem_cons, List.not_mem_nil, or_false] at hp
  rcases hp with rfl | rfl | rfl
  · exact ⟨_, _, rfl, by unfold Deliverable; decide +kernel⟩
  · exact ⟨_, _, rfl, deliverable_of_metricless (by decide +kernel)⟩
  · exact ⟨_, _, rfl, deliverable_of_metricless (by decide +kernel)⟩

/-- A frame with an empty payload makes a point of two zeros. -/
theorem empty_payload_makes_a_point :
    Metricless (ascii "PAYLOAD=;SMAC=25") ∧ ¬ Unrecorded (ascii "PAYLOAD=;SMAC=25") ∧
    ∃ g, upClient.Up ∧ main upClient [.ofRaw (ascii "PAYLOAD=;SMAC=25") 1] = some g ∧
      g.calls.written.map (fun b => b.2.map fun pt => pt.fields.entries) =
        [[[⟨ascii "LQI", .int 0⟩, ⟨ascii "RSSI", .int 0⟩]]] := by
  refine ⟨by decide +kernel, fun h => ?_, _, upClient_up, rfl, rfl⟩
  obtain ⟨g, hg, hnone, -⟩ :=
    h upClient (fun _ => rfl) [.ofRaw (ascii "PAYLOAD=;SMAC=25") 1] 0 1 rfl
  obtain rfl := Option.some.inj hg
  have := hnone _ (List.mem_singleton.mpr rfl) rfl
  contradiction

end OflMotes.Gateway
