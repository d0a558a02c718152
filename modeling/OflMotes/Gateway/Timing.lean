import OflMotes.Gateway.Database
import OflMotes.Lib.Epochs

/-! The times of the points. A packet is stamped by the read that finds it in the buffer, and keeps
this time however long it waits for the channel, for `main` or for the database. -/
namespace OflMotes.Gateway
open Ascii Framing Rendezvous Epochs

/-- The clock of the host does not go back. -/
def Clocked (reads : List Read) : Prop := reads.Pairwise fun q r => q.now ≤ r.now

instance (reads : List Read) : Decidable (Clocked reads) := inferInstanceAs (Decidable (List.Pairwise _ _))

/-- What is sent of the frames completed: the first of them, and on such a clock none stamped before
its completion. -/
def Stamped (reads : List Read) (sent : List Packet) : Prop :=
  ∃ done rest, completions reads = done ++ rest ∧
    List.Forall₂ (fun p c => p.raw = c.1 ∧ (Clocked reads → c.2 ≤ p.timestamp)) sent done

theorem Clocked.init {reads : List Read} {r : Read} (h : Clocked (reads ++ [r])) : Clocked reads :=
  (List.pairwise_append.mp h).1

theorem completions_raw (reads : List Read) :
    (completions reads).map Prod.fst = rawFrames (stream reads) := by
  induction reads using List.reverseRecOn with
  | nil => rfl
  | append_singleton reads r ih =>
    obtain ⟨new, hnew⟩ := (payloadFrame.extract_prefix_append (stream reads) r.bytes).map rawOf
    have hfst : Prod.fst ∘ (fun raw : List UInt8 => (raw, r.now)) = id := rfl
    rw [completions_concat, List.map_append, ih, List.map_map, hfst, List.map_id, stream_concat]
    simp only [rawFrames]
    rw [← hnew, List.drop_left]

/-- A frame is completed at the time of some read. -/
theorem completions_time {reads : List Read} {c : List UInt8 × ℕ} (hc : c ∈ completions reads) :
    ∃ r ∈ reads, c.2 = r.now := by
  induction reads using List.reverseRecOn with
  | nil => contradiction
  | append_singleton reads r ih =>
    rw [completions_concat, List.mem_append] at hc
    rcases hc with hc | hc
    · obtain ⟨q, hq, htime⟩ := ih hc
      exact ⟨q, List.mem_append_left _ hq, htime⟩
    · obtain ⟨raw, -, rfl⟩ := List.mem_map.mp hc
      exact ⟨r, List.mem_append_right _ (List.mem_singleton_self r), rfl⟩

/-- With the last read, all frames completed so far have been completed. -/
theorem completions_le {reads : List Read} {r : Read} (hclock : Clocked (reads ++ [r]))
    {c : List UInt8 × ℕ} (hc : c ∈ completions (reads ++ [r])) : c.2 ≤ r.now := by
  obtain ⟨q, hq, htime⟩ := completions_time hc
  rw [htime]
  rcases List.mem_append.mp hq with hq | hq
  · exact (List.pairwise_append.mp hclock).2.2 q hq r (List.mem_singleton_self r)
  · rw [List.mem_singleton.mp hq]

theorem map_raw_of_forall₂ {P : Packet → List UInt8 × ℕ → Prop} {sent : List Packet}
    {done : List (List UInt8 × ℕ)} (h : List.Forall₂ (fun p c => p.raw = c.1 ∧ P p c) sent done) :
    sent.map (·.raw) = done.map Prod.fst := by
  rw [← List.forall₂_eq_eq_eq, List.forall₂_map_left_iff, List.forall₂_map_right_iff]
  exact h.imp fun _ _ hpc => hpc.1

theorem stamped_more {reads : List Read} (r : Read) {sent : List Packet} (h : Stamped reads sent) :
    Stamped (reads ++ [r]) sent := by
  obtain ⟨done, rest, hdone, hsent⟩ := h
  refine ⟨done, _, by rw [completions_concat, hdone, List.append_assoc], hsent.imp ?_⟩
  rintro p c ⟨hraw, hle⟩
  exact ⟨hraw, fun hclock => hle hclock.init⟩

/-- One read sends the first frame that was completed and not sent. -/
theorem stamped_send {reads : List Read} {r : Read} {sent : List Packet} (h : Stamped reads sent)
    {raw : List UInt8} {retained : List (List UInt8)}
    (hall : (sent.map (·.raw) ++ [raw]) ++ retained = rawFrames (stream (reads ++ [r]))) :
    Stamped (reads ++ [r]) (sent ++ [.ofRaw raw r.now]) := by
  obtain ⟨done, rest, hdone, hsent⟩ := h
  obtain ⟨new, hnew⟩ : ∃ new, completions (reads ++ [r]) = done ++ new :=
    ⟨_, by rw [completions_concat, hdone, List.append_assoc]⟩
  have hraw : raw :: retained = new.map Prod.fst := by
    rw [← completions_raw, hnew, List.map_append, map_raw_of_forall₂ hsent, List.append_assoc] at hall
    exact List.append_cancel_left hall
  cases new with
  | nil => contradiction
  | cons c new =>
    obtain ⟨hc, -⟩ := List.cons.inj hraw
    have hle : Clocked (reads ++ [r]) → c.2 ≤ r.now := by
      intro hclock
      apply completions_le hclock
      rw [hnew]
      exact List.mem_append_right _ List.mem_cons_self
    refine ⟨done ++ [c], new, ?_, ?_⟩
    · rw [hnew, List.append_assoc, List.singleton_append]
    · refine List.rel_append (hsent.imp ?_) (.cons ⟨hc, hle⟩ .nil)
      rintro p c ⟨hraw, hle⟩
      exact ⟨hraw, fun hclock => hle hclock.init⟩

theorem stamped_serialworker {reads : List Read} {s : Serial} (hs : serialworker reads = some s) :
    Stamped reads s.sent := by
  induction reads using List.reverseRecOn generalizing s with
  | nil =>
    obtain rfl := Option.some.inj hs
    exact ⟨[], [], rfl, .nil⟩
  | append_singleton reads r ih =>
    obtain ⟨t, ht, -⟩ := serialworker_framed reads
    obtain ⟨s', hs', hall, -⟩ := serialworker_sent_append_retained (reads ++ [r])
    obtain rfl : s' = s := Option.some.inj (hs'.symm.trans hs)
    have hbefore := ih ht
    rw [serialworker_concat, ht] at hs
    rcases serialRead_cases t r with ⟨-, hstep⟩ | ⟨-, -, hstep⟩ | ⟨-, m, -, hstep⟩ <;>
      obtain rfl := Option.some.inj (hstep.symm.trans hs)
    · exact stamped_more r hbefore
    · exact stamped_more r hbefore
    · rw [List.map_append] at hall
      exact stamped_send hbefore hall

/-- A list numbered from zero, and what its numbers find in another one. -/
theorem forall₂_take_of_numbered {α β : Type*} {R : ℕ × β → α → Prop} {l : List (ℕ × β)}
    {as : List α} (hnumbers : l.map Prod.fst = List.range l.length)
    (h : ∀ b ∈ l, ∃ a, as[b.1]? = some a ∧ R b a) : List.Forall₂ R l (as.take l.length) := by
  induction l using List.reverseRecOn with
  | nil => exact .nil
  | append_singleton l b ih =>
    rw [List.map_append, List.length_append, List.length_singleton, List.range_succ] at hnumbers
    obtain ⟨hinit, hlast⟩ := List.append_inj' hnumbers rfl
    obtain ⟨a, ha, hR⟩ := h b (List.mem_append_right _ (List.mem_singleton_self b))
    have hb : b.1 = l.length := (List.cons.inj hlast).1
    rw [hb] at ha
    rw [List.length_append, List.length_singleton, List.take_add_one, ha]
    exact List.rel_append (ih hinit fun c hc => h c (List.mem_append_left _ hc)) (.cons hR .nil)

/-- The batches written are the points of the first packets passed. -/
theorem written_passed (client : Client) (es : List (Rendezvous.Event Read)) :
    let h := Host.run client es
    List.Forall₂ (fun b p => b.2 = [(decodePacket p).stamp.point]) h.consumer.2.calls.written
      (h.passed.take h.consumer.2.calls.written.length) := by
  intro h
  obtain ⟨-, hlossless⟩ := host_lossless client es
  refine forall₂_take_of_numbered ?_ fun b hb => Host.written_point hb
  have hprefix : h.consumer.2.calls.written.map Prod.fst <+: List.range h.passed.length :=
    ⟨_, hlossless.order⟩
  have hle := hprefix.length_le
  rw [List.length_map, List.length_range] at hle
  rw [List.prefix_iff_eq_take, List.take_range, List.length_map, Nat.min_eq_left hle] at hprefix
  exact hprefix

/-- What relates the packets sent to frames relates the points written to them. -/
theorem written_of_sent {client : Client} {es : List (Rendezvous.Event Read)}
    {R : Packet → List UInt8 × ℕ → Prop} {done rest : List (List UInt8 × ℕ)}
    (h : List.Forall₂ R (Host.run client es).producer.sent done) :
    let written := (Host.run client es).consumer.2.calls.written
    List.Forall₂ (fun b c => ∃ p : Packet, R p c ∧
      b.2 = [(decodePacket (.ofRaw p.raw p.timestamp)).stamp.point])
      written ((done ++ rest).take written.length) := by
  intro written
  obtain ⟨-, hsent, -⟩ := host_refines client es
  have hpoints := written_passed client es
  have hle : written.length ≤ (Host.run client es).passed.length := by
    rw [hpoints.length_eq, List.length_take]
    exact Nat.min_le_right _ _
  have hlen : written.length ≤ done.length := by
    rw [← h.length_eq, hsent, List.length_append]
    exact hle.trans (Nat.le_add_right _ _)
  have hfirst := List.forall₂_take written.length h
  rw [hsent, List.take_append_of_le_length hle] at hfirst
  rw [List.take_append_of_le_length hlen]
  have hraw : ∀ p ∈ (Host.run client es).passed.take written.length, p = .ofRaw p.raw p.timestamp :=
    fun p hp => passed_ofRaw client es p (List.mem_of_mem_take hp)
  refine forall₂_comp ?_ hpoints ((List.forall₂_and_left _ _).mpr ⟨hraw, hfirst⟩)
  rintro b p c hb ⟨hp, hR⟩
  exact ⟨p, hR, by rw [hb, ← hp]⟩

/-- The points keep the time of their reception. In every state that both goroutines can reach,
whatever the database answers and however often a batch is tried, the batches written are those of
the first frames completed, and with a clock that does not go back none bears a time before the read
that completed its frame. Where no read completes two frames, each bears exactly that time. -/
theorem points_keep_their_time (client : Client) (es : List (Rendezvous.Event Read)) :
    let h := Host.run client es
    let written := h.consumer.2.calls.written
    List.Forall₂ (fun b c => ∃ now, (Clocked h.inputs → c.2 ≤ now) ∧
        b.2 = [(decodePacket (.ofRaw c.1 now)).stamp.point])
      written ((completions h.inputs).take written.length) ∧
    ((∀ rs r, rs ++ [r] <+: h.inputs → r.bytes ≠ [] → CompletesAtMostOne rs r) →
      List.Forall₂ (fun b c => b.2 = [(decodePacket (.ofRaw c.1 c.2)).stamp.point])
        written ((completions h.inputs).take written.length)) := by
  intro h written
  obtain ⟨hserial, -, -⟩ := host_refines client es
  constructor
  · obtain ⟨done, rest, hdone, hsent⟩ := stamped_serialworker hserial
    rw [hdone]
    refine (written_of_sent hsent).imp ?_
    rintro b c ⟨p, ⟨hraw, hle⟩, hb⟩
    exact ⟨p.timestamp, hle, hraw ▸ hb⟩
  · intro hone
    obtain ⟨s, hs, -, -, hstamp⟩ := delivered_of_completesAtMostOne hone
    obtain rfl := Option.some.inj (hs.symm.trans hserial)
    rw [← List.forall₂_eq_eq_eq, List.forall₂_map_left_iff] at hstamp
    rw [← List.append_nil (completions h.inputs)]
    refine (written_of_sent hstamp).imp ?_
    rintro b c ⟨p, rfl, hb⟩
    exact hb

/-- Two frames in one read, of which the second is found by the next one. -/
def lateRun : List (Rendezvous.Event Read) :=
  [.input ⟨ascii "<PAYLOAD=413A31;>\n<PAYLOAD=423A32;>\n", 7⟩, .meet, .turn, .turn, .turn,
    .input ⟨ascii "#", 9⟩, .meet, .turn, .turn]

theorem points_keep_their_time_late :
    let h := Host.run upClient lateRun
    let written := h.consumer.2.calls.written
    Clocked h.inputs ∧ (completions h.inputs).map Prod.snd = [7, 7] ∧
    written.flatMap (fun b => b.2.map Point.time) = [7, 9] ∧
    List.Forall₂ (fun b c => ∃ now, (Clocked h.inputs → c.2 ≤ now) ∧
        b.2 = [(decodePacket (.ofRaw c.1 now)).stamp.point])
      written ((completions h.inputs).take written.length) :=
  ⟨by decide +kernel, by decide +kernel, by decide +kernel,
    (points_keep_their_time upClient lateRun).1⟩

end OflMotes.Gateway
