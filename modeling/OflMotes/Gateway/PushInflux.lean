import OflMotes.Gateway.DecodePacket

/-! `push_influx` and the loop of `main`: decoded packets wait in a queue and are written to the
database front first. The calls into the database client are answered by a parameter. -/
namespace OflMotes.Gateway
open Ascii

/-- What `client.NewPoint` is called with. -/
structure Point where
  name : List UInt8
  tags : List (List UInt8 × List UInt8)
  fields : Datamap
  time : ℕ

/-- The outcomes of the calls into the InfluxDB client, which is not part of this repository:
whether the call with a given number succeeds. -/
structure Client where
  newHTTPClient : ℕ → Bool
  newBatchPoints : ℕ → Bool
  newPoint : ℕ → Point → Bool
  write : ℕ → List Point → Bool

/-- An element of the queue: a packet that is changed in place, and the number of its arrival. -/
structure Element where
  arrival : ℕ
  packet : Packet

/-- The calls made so far: their number, the points asked for, the batches handed to `Write` and those
of them that were written, each with the arrival it was made for. -/
structure Calls where
  count : ℕ
  points : List (ℕ × Point)
  tried : List (ℕ × List Point)
  written : List (ℕ × List Point)

/-- The state of `main` between two packets. -/
structure MainState where
  ps : List Element
  arrived : ℕ
  calls : Calls

def MainState.start : MainState := ⟨[], 0, ⟨0, [], [], []⟩⟩

/-- `p.datamap["RSSI"] = p.rssi` and the same for the LQI. -/
def Packet.stamp (p : Packet) : Packet :=
  let m := p.datamap.insert (ascii "RSSI") (.int p.rssi)
  { p with datamap := m.insert (ascii "LQI") (.int p.lqi) }

/-- The point of a stamped packet. -/
def Packet.point (p : Packet) : Point :=
  ⟨ascii "metrics", [(ascii "ID", p.smac)], p.datamap, p.timestamp⟩

section
variable (client : Client)

/-- One round of the loop of `push_influx`: whether the front element is to be removed, what it
holds afterwards, and the calls made. -/
def pushFront (c : Calls) (e : Element) : Bool × Element × Calls :=
  if client.newBatchPoints c.count then
    let c := { c with count := c.count + 1 }
    let e := { e with packet := e.packet.stamp }
    if 0 < e.packet.datamap.keys.length then
      let pt := e.packet.point
      let made := { c with count := c.count + 1, points := c.points ++ [(e.arrival, pt)] }
      if client.newPoint c.count pt then
        (client.write made.count [pt], e, { made with
          count := made.count + 1
          tried := made.tried ++ [(e.arrival, [pt])]
          written := if client.write made.count [pt] then made.written ++ [(e.arrival, [pt])]
            else made.written })
      else (false, e, made)
    else
      (client.write c.count [], e, { c with
        count := c.count + 1
        tried := c.tried ++ [(e.arrival, [])]
        written := if client.write c.count [] then c.written ++ [(e.arrival, [])]
          else c.written })
  else (false, e, { c with count := c.count + 1 })

/-- The loop of `push_influx`: an element that cannot be sent stays in front of the others. -/
def pushLoop : Calls → List Element → Calls × List Element
  | c, [] => (c, [])
  | c, e :: ps =>
    match pushFront client c e with
    | (true, _, c) => pushLoop c ps
    | (false, e, c) => (c, e :: ps)

/-- `push_influx`. Where the HTTP client cannot be created, closing the missing client ends the
program. -/
def pushInflux (g : MainState) : Option MainState :=
  if client.newHTTPClient g.calls.count then
    let (calls, ps) := pushLoop client { g.calls with count := g.calls.count + 1 } g.ps
    some { g with ps := ps, calls := calls }
  else none

/-- One round of the loop of `main`. -/
def mainRound (g : MainState) (p : Packet) : Option MainState :=
  pushInflux client
    { g with ps := g.ps ++ [⟨g.arrived, decodePacket p⟩], arrived := g.arrived + 1 }

/-- The loop of `main` over the packets that arrive on the channel. -/
def main (packets : List Packet) : Option MainState := packets.foldlM (mainRound client) .start

end

theorem insert_twice_insert_twice (m : Datamap) {k₁ k₂ : List UInt8} (h : k₁ ≠ k₂) (v₁ v₂ : Value) :
    (((m.insert k₁ v₁).insert k₂ v₂).insert k₁ v₁).insert k₂ v₂ = (m.insert k₁ v₁).insert k₂ v₂ := by
  apply AList.ext
  have h₁ (l : List (Sigma fun _ : List UInt8 => Value)) :
      List.kerase k₁ (⟨k₁, v₁⟩ :: l) = l := List.kerase_cons_eq rfl
  have h₂ (l : List (Sigma fun _ : List UInt8 => Value)) :
      List.kerase k₂ (⟨k₂, v₂⟩ :: l) = l := List.kerase_cons_eq rfl
  have h₁₂ (l : List (Sigma fun _ : List UInt8 => Value)) :
      List.kerase k₁ (⟨k₂, v₂⟩ :: l) = ⟨k₂, v₂⟩ :: List.kerase k₁ l := List.kerase_cons_ne h
  have h₂₁ (l : List (Sigma fun _ : List UInt8 => Value)) :
      List.kerase k₂ (⟨k₁, v₁⟩ :: l) = ⟨k₁, v₁⟩ :: List.kerase k₂ l := List.kerase_cons_ne h.symm
  simp only [AList.entries_insert, h₁, h₂, h₁₂, h₂₁]

/-- A packet that stays in the queue is stamped again at the next attempt, to no effect. -/
@[simp] theorem Packet.stamp_stamp (p : Packet) : p.stamp.stamp = p.stamp := by
  simp only [stamp, insert_twice_insert_twice p.datamap (show ascii "RSSI" ≠ ascii "LQI" by decide)]

theorem Packet.stamp_datamap_keys (p : Packet) : 0 < p.stamp.datamap.keys.length :=
  List.length_pos_of_mem (AList.mem_keys.mp ((AList.mem_insert (a := ascii "LQI") _).mpr (.inl rfl)))

/-- What one round does: it calls for the point of the stamped packet unless the batch fails, hands
the batch to `Write` only with that point in it, and removes the element exactly if it was written. -/
theorem pushFront_cases (client : Client) (c : Calls) (e : Element) :
    pushFront client c e = (false, e, ⟨c.count + 1, c.points, c.tried, c.written⟩) ∨
    (∃ n tried, pushFront client c e = (false, { e with packet := e.packet.stamp },
        ⟨n, c.points ++ [(e.arrival, e.packet.stamp.point)], tried, c.written⟩) ∧
      (tried = c.tried ∨ tried = c.tried ++ [(e.arrival, [e.packet.stamp.point])])) ∨
    ∃ n, pushFront client c e = (true, { e with packet := e.packet.stamp },
      ⟨n, c.points ++ [(e.arrival, e.packet.stamp.point)],
        c.tried ++ [(e.arrival, [e.packet.stamp.point])],
        c.written ++ [(e.arrival, [e.packet.stamp.point])]⟩) := by
  unfold pushFront
  by_cases hb : client.newBatchPoints c.count
  · rw [if_pos hb]
    right
    simp only [if_pos e.packet.stamp_datamap_keys]
    by_cases hp : client.newPoint (c.count + 1) e.packet.stamp.point
    · rw [if_pos hp]
      cases hw : client.write (c.count + 1 + 1) [e.packet.stamp.point] with
      | true => exact .inr ⟨_, rfl⟩
      | false => exact .inl ⟨_, _, rfl, .inr rfl⟩
    · rw [if_neg hp]
      exact .inl ⟨_, _, rfl, .inl rfl⟩
  · rw [if_neg hb]
    exact .inl rfl

/-- The queue and the calls are those of a lossless queue over the arrivals `ps`: the written and
the waiting ones are all arrivals in order, and each point is that of its arrival. -/
structure Lossless (packets : List Packet) (ps : List Element) (c : Calls) : Prop where
  order : c.written.map Prod.fst ++ ps.map (·.arrival) = List.range packets.length
  waiting : ∀ e ∈ ps, (packets[e.arrival]?).map (fun p => (decodePacket p).stamp) =
    some e.packet.stamp
  asked : ∀ a ∈ c.points, (packets[a.1]?).map (fun p => (decodePacket p).stamp.point) = some a.2
  tried : ∀ b ∈ c.tried, (packets[b.1]?).map (fun p => [(decodePacket p).stamp.point]) = some b.2
  subset : c.written ⊆ c.tried

theorem Lossless.sent {packets : List Packet} {ps : List Element} {c : Calls}
    (h : Lossless packets ps c) :
    ∀ b ∈ c.written, (packets[b.1]?).map (fun p => [(decodePacket p).stamp.point]) = some b.2 :=
  fun b hb => h.tried b (h.subset hb)

theorem lossless_ps_cons {packets : List Packet} {e : Element} {ps : List Element} {c : Calls}
    (h : Lossless packets (e :: ps) c) :
    (packets[e.arrival]?).map (fun p => (decodePacket p).stamp.point) =
      some e.packet.stamp.point := by
  have := congrArg (Option.map Packet.point) (h.waiting e (by simp))
  simpa [Option.map_map, Function.comp_def] using this

/-- One round keeps the queue lossless, wherever it stops. -/
theorem lossless_pushFront (client : Client) {packets : List Packet} {e : Element}
    {ps : List Element} {c : Calls} (h : Lossless packets (e :: ps) c) :
    (∃ e' c', pushFront client c e = (false, e', c') ∧ Lossless packets (e' :: ps) c') ∨
      ∃ e' c', pushFront client c e = (true, e', c') ∧ Lossless packets ps c' := by
  have hpt := lossless_ps_cons h
  have hasked : ∀ a ∈ c.points ++ [(e.arrival, e.packet.stamp.point)],
      (packets[a.1]?).map (fun p => (decodePacket p).stamp.point) = some a.2 := by
    intro a ha
    rcases List.mem_append.mp ha with ha | ha
    · exact h.asked a ha
    · obtain rfl := List.mem_singleton.mp ha
      exact hpt
  have hstamped : ∀ x ∈ ({ e with packet := e.packet.stamp } : Element) :: ps,
      (packets[x.arrival]?).map (fun p => (decodePacket p).stamp) = some x.packet.stamp := by
    intro x hx
    rcases List.mem_cons.mp hx with rfl | hx
    · rw [Packet.stamp_stamp]
      exact h.waiting e (by simp)
    · exact h.waiting x (by simp [hx])
  have htried : ∀ b ∈ c.tried ++ [(e.arrival, [e.packet.stamp.point])],
      (packets[b.1]?).map (fun p => [(decodePacket p).stamp.point]) = some b.2 := by
    intro b hb
    rcases List.mem_append.mp hb with hb | hb
    · exact h.tried b hb
    · obtain rfl := List.mem_singleton.mp hb
      have := congrArg (Option.map fun pt => [pt]) hpt
      simpa [Option.map_map, Function.comp_def] using this
  rcases pushFront_cases client c e with hc | ⟨n, tried, hc, rfl | rfl⟩ | ⟨n, hc⟩
  · exact .inl ⟨_, _, hc, h.order, h.waiting, h.asked, h.tried, h.subset⟩
  · exact .inl ⟨_, _, hc, h.order, hstamped, hasked, h.tried, h.subset⟩
  · exact .inl ⟨_, _, hc, h.order, hstamped, hasked, htried,
      List.subset_append_of_subset_left _ h.subset⟩
  · refine .inr ⟨_, _, hc, ?_, fun x hx => h.waiting x (by simp [hx]), hasked, htried, ?_⟩
    · simpa using h.order
    · exact List.append_subset.mpr ⟨List.subset_append_of_subset_left _ h.subset,
        List.subset_append_right _ _⟩

theorem lossless_pushLoop (client : Client) {packets : List Packet} {ps : List Element} {c : Calls}
    (h : Lossless packets ps c) :
    Lossless packets (pushLoop client c ps).2 (pushLoop client c ps).1 := by
  induction ps generalizing c with
  | nil => exact h
  | cons e ps ih =>
    rcases lossless_pushFront client h with ⟨e', c', hf, h'⟩ | ⟨e', c', hf, h'⟩
    · rw [pushLoop, hf]
      exact h'
    · rw [pushLoop, hf]
      exact ih h'

/-- A new arrival waits behind the others. -/
theorem lossless_pushBack {packets : List Packet} {ps : List Element} {c : Calls} (p : Packet)
    (h : Lossless packets ps c) :
    Lossless (packets ++ [p]) (ps ++ [⟨packets.length, decodePacket p⟩])
      { c with count := c.count + 1 } := by
  have hmono {β : Type} (f : Packet → β) {i : ℕ} {b : β} (hi : (packets[i]?).map f = some b) :
      ((packets ++ [p])[i]?).map f = some b := by
    obtain ⟨q, hq, rfl⟩ := Option.map_eq_some_iff.mp hi
    have hlt : i < packets.length := (List.getElem?_eq_some_iff.mp hq).1
    rw [List.getElem?_append_left hlt, hq, Option.map_some]
  refine ⟨?_, ?_, fun a ha => hmono _ (h.asked a ha), fun b hb => hmono _ (h.tried b hb), h.subset⟩
  · rw [List.map_append, ← List.append_assoc, h.order]
    simp [List.range_succ]
  · intro e he
    rcases List.mem_append.mp he with he | he
    · exact hmono _ (h.waiting e he)
    · obtain rfl := List.mem_singleton.mp he
      simp

theorem lossless_main {client : Client} (hhttp : ∀ n, client.newHTTPClient n = true)
    (packets : List Packet) :
    ∃ g, main client packets = some g ∧ g.arrived = packets.length ∧
      Lossless packets g.ps g.calls := by
  induction packets using List.reverseRecOn with
  | nil => exact ⟨.start, rfl, rfl, rfl, by simp [MainState.start], by simp [MainState.start],
      by simp [MainState.start], by simp [MainState.start]⟩
  | append_singleton packets p ih =>
    obtain ⟨g, hg, hn, h⟩ := ih
    have hround := lossless_pushLoop client (lossless_pushBack p h)
    refine ⟨{ ps := _, arrived := packets.length + 1, calls := _ }, ?_, by simp, hround⟩
    rw [main, List.foldlM_append, ← main, hg]
    simp [mainRound, pushInflux, hhttp, hn]

/-- After every arrival the packets written so far, in order, and the ones that wait are all
packets that arrived; none was written twice, and every point, written or only asked for, is that
of its packet. -/
theorem written_append_waiting (client : Client) (hhttp : ∀ n, client.newHTTPClient n = true)
    (packets : List Packet) :
    ∃ g, main client packets = some g ∧
      g.calls.written.map Prod.fst ++ g.ps.map (·.arrival) = List.range packets.length ∧
      (g.calls.written.map Prod.fst).Nodup ∧
      (∀ e ∈ g.ps, (packets[e.arrival]?).map (fun p => (decodePacket p).stamp) =
        some e.packet.stamp) ∧
      (∀ a ∈ g.calls.points, (packets[a.1]?).map (fun p => (decodePacket p).stamp.point) =
        some a.2) ∧
      ∀ b ∈ g.calls.written, ∃ pt, b.2 = [pt] ∧
        (packets[b.1]?).map (fun p => (decodePacket p).stamp.point) = some pt ∧
        ∀ a ∈ g.calls.points, a.1 = b.1 → a.2 = pt := by
  obtain ⟨g, hg, -, h⟩ := lossless_main hhttp packets
  refine ⟨g, hg, h.order, ?_, h.waiting, h.asked, ?_⟩
  · have hnodup := List.nodup_range (n := packets.length)
    rw [← h.order] at hnodup
    exact hnodup.of_append_left
  · intro b hb
    obtain ⟨p, hp, hpt⟩ := Option.map_eq_some_iff.mp (h.sent b hb)
    refine ⟨_, hpt.symm, by rw [hp]; rfl, fun a ha hab => ?_⟩
    have := h.asked a ha
    rw [hab, hp] at this
    exact (Option.some.inj this).symm

/-- A database that refuses the first and the third batch: the first packet is written at its second
attempt, and the other one waits. -/
theorem written_append_waiting_refused :
    ∃ g, main ⟨fun _ => true, fun _ => true, fun _ _ => true, fun n _ => n != 3 && n != 10⟩
        [.ofRaw (ascii "PAYLOAD=413A31;SMAC=25;LQI=120;RSSI=-61") 1, .ofRaw (ascii "PAYLOAD=;") 2] =
          some g ∧
      g.calls.written.map Prod.fst = [0] ∧ g.ps.map (·.arrival) = [1] ∧
      g.calls.written.map Prod.fst ++ g.ps.map (·.arrival) = List.range 2 ∧
      ∀ b ∈ g.calls.written, ∃ pt, b.2 = [pt] ∧ ∀ a ∈ g.calls.points, a.1 = b.1 → a.2 = pt := by
  obtain ⟨g, hg, horder, -, -, -, hsent⟩ := written_append_waiting
    ⟨fun _ => true, fun _ => true, fun _ _ => true, fun n _ => n != 3 && n != 10⟩ (fun _ => rfl)
    [.ofRaw (ascii "PAYLOAD=413A31;SMAC=25;LQI=120;RSSI=-61") 1, .ofRaw (ascii "PAYLOAD=;") 2]
  refine ⟨g, hg, ?_, ?_, horder, fun b hb => ?_⟩
  · obtain rfl := Option.some.inj hg
    rfl
  · obtain rfl := Option.some.inj hg
    rfl
  · obtain ⟨pt, hpt, -, hsame⟩ := hsent b hb
    exact ⟨pt, hpt, hsame⟩

end OflMotes.Gateway
