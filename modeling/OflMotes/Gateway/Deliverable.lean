import OflMotes.Gateway.PushInflux

/-! Which payloads the database takes. A point that is refused stays in front of the queue, and
with it all packets behind. -/
namespace OflMotes.Gateway
open Ascii Fields

/-- A field value that the line protocol can express. -/
def Value.Finite : Value → Prop
  | .int _ => True
  | .float f => f.Finite

instance (v : Value) : Decidable v.Finite := by
  cases v <;> unfold Value.Finite <;> infer_instance

/-- The points that `client.NewPoint` makes: those with a field, no empty field name, and no
float that is infinite or not a number. -/
def Point.Accepted (pt : Point) : Prop :=
  pt.fields.keys ≠ [] ∧ [] ∉ pt.fields.keys ∧ ∀ e ∈ pt.fields.entries, e.2.Finite

instance (pt : Point) : Decidable pt.Accepted := by unfold Point.Accepted; infer_instance

/-- The database is up and the network works: only a point can be refused. -/
structure Client.Up (client : Client) : Prop where
  http : ∀ n, client.newHTTPClient n = true
  batch : ∀ n, client.newBatchPoints n = true
  write : ∀ n b, client.write n b = true
  point : ∀ n pt, client.newPoint n pt = true ↔ pt.Accepted

/-- A client whose calls all succeed but for the points that cannot be made. -/
def upClient : Client :=
  ⟨fun _ => true, fun _ => true, fun _ pt => decide pt.Accepted, fun _ _ => true⟩

theorem upClient_up : upClient.Up :=
  ⟨fun _ => rfl, fun _ => rfl, fun _ _ => rfl, fun _ _ => decide_eq_true_iff⟩

/-- The raw frames whose metrics the database takes: the payload is no hexadecimal text, or it
names no metric by the empty text and its temperature and humidity are finite numbers. -/
def Deliverable (raw : List UInt8) : Prop :=
  ∀ payload ∈ hexDecode (payloadText raw),
    (∀ f ∈ payloadFields payload, f.1 ≠ []) ∧
      ∀ name ∈ [ascii "TEMP", ascii "HUMI"], ∀ v ∈ lastValue name (payloadFields payload),
        (parseFloat v).1.Finite

/-- The queue holds the decoded packets of the raw frames, some of them stamped by an attempt. -/
def Queued (ps : List Element) (raws : List (List UInt8)) : Prop :=
  List.Forall₂ (fun e raw => ∃ now, e.packet.stamp = (decodePacket (.ofRaw raw now)).stamp) ps raws

theorem lookup_stamp (p : Packet) (k : List UInt8) :
    p.stamp.datamap.lookup k = if k = ascii "LQI" then some (.int p.lqi)
      else if k = ascii "RSSI" then some (.int p.rssi) else p.datamap.lookup k := by
  unfold Packet.stamp
  split_ifs with h₁ h₂
  · rw [h₁, AList.lookup_insert]
  · rw [AList.lookup_insert_ne h₁, h₂, AList.lookup_insert]
  · rw [AList.lookup_insert_ne h₁, AList.lookup_insert_ne h₂]

theorem forall_entries_iff {m : Datamap} {P : Value → Prop} :
    (∀ e ∈ m.entries, P e.2) ↔ ∀ k v, m.lookup k = some v → P v := by
  constructor
  · intro h k v hv
    exact h _ (AList.mem_lookup_iff.mp hv)
  · intro h e he
    exact h e.1 e.2 (AList.mem_lookup_iff.mpr he)

/-- The stamp adds two integers, so a point is refused for its decoded metrics only. -/
theorem accepted_stamp_iff (p : Packet) :
    p.stamp.point.Accepted ↔ p.datamap.lookup [] = none ∧
      ∀ k v, k ≠ ascii "LQI" → k ≠ ascii "RSSI" → p.datamap.lookup k = some v → v.Finite := by
  have hkeys : p.stamp.datamap.keys ≠ [] := List.ne_nil_of_length_pos p.stamp_datamap_keys
  have hempty : [] ∉ p.stamp.datamap.keys ↔ p.datamap.lookup [] = none := by
    rw [← AList.mem_keys, ← AList.lookup_eq_none, lookup_stamp, if_neg (by decide),
      if_neg (by decide)]
  unfold Point.Accepted Packet.point
  rw [forall_entries_iff, hempty]
  constructor
  · rintro ⟨-, hnone, hfin⟩
    refine ⟨hnone, fun k v h₁ h₂ hv => hfin k v ?_⟩
    rw [lookup_stamp, if_neg h₁, if_neg h₂, hv]
  · rintro ⟨hnone, hfin⟩
    refine ⟨hkeys, hnone, fun k v hv => ?_⟩
    rw [lookup_stamp] at hv
    split_ifs at hv with h₁ h₂
    · obtain rfl := Option.some.inj hv
      trivial
    · obtain rfl := Option.some.inj hv
      trivial
    · exact hfin k v h₁ h₂ hv

theorem finite_fieldValue_iff (k v : List UInt8) :
    (fieldValue k v).Finite ↔ k ∈ [ascii "TEMP", ascii "HUMI"] → (parseFloat v).1.Finite := by
  unfold fieldValue fieldValueWith
  split_ifs with h
  · simp [Value.Finite, h, parseFloat]
  · simp [Value.Finite, h]

/-- A decoded packet makes a point exactly if its raw frame is deliverable. -/
theorem accepted_decodePacket_iff (raw : List UInt8) (now : ℕ) :
    (decodePacket (.ofRaw raw now)).stamp.point.Accepted ↔ Deliverable raw := by
  rw [accepted_stamp_iff]
  simp only [lookup_decodePacket, Deliverable]
  cases hexDecode (payloadText raw) with
  | none => simp
  | some payload =>
    simp only [Option.bind_some, Option.map_eq_none_iff, lastValue_eq_none,
      Option.mem_def, Option.some.injEq, forall_eq']
    refine and_congr_right fun _ => ⟨fun h name hname v hv => ?_, fun h k v _ _ hv => ?_⟩
    · have hlqi : name ≠ ascii "LQI" := by rintro rfl; exact absurd hname (by decide)
      have hrssi : name ≠ ascii "RSSI" := by rintro rfl; exact absurd hname (by decide)
      have := h name _ hlqi hrssi (by rw [hv]; rfl)
      exact (finite_fieldValue_iff name v).mp this hname
    · obtain ⟨w, hw, rfl⟩ := Option.map_eq_some_iff.mp hv
      exact (finite_fieldValue_iff k w).mpr fun hk => h k hk w hw

section
variable {client : Client}

theorem pushFront_up (hup : client.Up) (c : Calls) (e : Element) :
    (pushFront client c e).1 = true ↔ e.packet.stamp.point.Accepted := by
  unfold pushFront
  rw [if_pos (hup.batch _)]
  simp only [if_pos e.packet.stamp_datamap_keys]
  rw [← hup.point (c.count + 1)]
  by_cases h : client.newPoint (c.count + 1) e.packet.stamp.point
  · simp [h, hup.write]
  · simp [h]

/-- The loop empties the queue exactly if every point is accepted. -/
theorem pushLoop_up (hup : client.Up) (c : Calls) (ps : List Element) :
    (pushLoop client c ps).2 = [] ↔ ∀ e ∈ ps, e.packet.stamp.point.Accepted := by
  induction ps generalizing c with
  | nil => simp [pushLoop]
  | cons e ps ih =>
    have he := pushFront_up hup c e
    rw [pushLoop, List.forall_mem_cons]
    split
    · next e' c' h =>
      rw [h] at he
      rw [ih]
      exact ⟨fun hps => ⟨he.mp rfl, hps⟩, fun hps => hps.2⟩
    · next e' c' h =>
      rw [h] at he
      simp only [reduceCtorEq, false_iff, not_and]
      exact fun h' => absurd (he.mpr h') (by simp)

theorem forall_accepted_iff {ps : List Element} {raws : List (List UInt8)} (h : Queued ps raws) :
    (∀ e ∈ ps, e.packet.stamp.point.Accepted) ↔ ∀ raw ∈ raws, Deliverable raw := by
  induction h with
  | nil => simp
  | cons hraw _ ih =>
    obtain ⟨now, hnow⟩ := hraw
    rw [List.forall_mem_cons, List.forall_mem_cons, ih, hnow, accepted_decodePacket_iff]

end

/-- While the database is up, `push_influx` empties a queue exactly if all frames in it are
deliverable. -/
theorem pushInflux_empties_iff (client : Client) (hup : client.Up) (g : MainState)
    (raws : List (List UInt8)) (hraws : Queued g.ps raws) :
    (∃ g', pushInflux client g = some g' ∧ g'.ps = []) ↔ ∀ raw ∈ raws, Deliverable raw := by
  rw [← forall_accepted_iff hraws, ← pushLoop_up hup { g.calls with count := g.calls.count + 1 }]
  simp [pushInflux, hup.http]

/-- A queue with a metric called `A`, and one whose temperature is `NaN`. -/
theorem pushInflux_empties_iff_nan :
    (∃ g', pushInflux upClient ⟨[⟨0, decodePacket (.ofRaw (ascii "PAYLOAD=413A31;SMAC=25") 1)⟩,
        ⟨1, decodePacket (.ofRaw (ascii "PAYLOAD=54454D503A4E614E") 2)⟩], 2, ⟨0, [], [], []⟩⟩ =
          some g' ∧
      g'.ps = []) ↔
    ∀ raw ∈ [ascii "PAYLOAD=413A31;SMAC=25", ascii "PAYLOAD=54454D503A4E614E"], Deliverable raw :=
  pushInflux_empties_iff upClient upClient_up _ _ (.cons ⟨1, rfl⟩ (.cons ⟨2, rfl⟩ .nil))

/-- The payload `:5` names a metric by the empty text: it blocks the intact packet that arrives
after it. -/
theorem empty_name_blocks_the_queue :
    ∃ g, upClient.Up ∧ main upClient [.ofRaw (ascii "PAYLOAD=3A35;SMAC=25") 1,
        .ofRaw (ascii "PAYLOAD=413A31;SMAC=37") 2] = some g ∧
      g.ps.map (·.arrival) = [0, 1] ∧ g.calls.written.map Prod.fst = [] :=
  ⟨_, upClient_up, rfl, rfl, rfl⟩

end OflMotes.Gateway
