import OflMotes.Gateway.Serialworker

/-! What `serialworker` delivers of a stream, and when: no frame is lost or invented, but one
read sends at most one packet. -/
namespace OflMotes.Gateway
open Ascii Framing

/-- After every read the raw strings sent and the frames still in the buffer are the frames of
the stream, and the slices of the next iteration are in range. -/
theorem serialworker_sent_append_retained (reads : List Read) :
    ∃ s, serialworker reads = some s ∧
      s.sent.map (·.raw) ++ rawFrames s.buftotal = rawFrames (stream reads) ∧
      ∀ (r : Read) (m : ℕ × ℕ), payloadFrame.findIndex (s.buftotal ++ r.bytes) = some m →
        m.1 + 1 + 2 ≤ m.2 ∧ m.2 ≤ (s.buftotal ++ r.bytes).length := by
  obtain ⟨s, hs, hinv⟩ := serialworker_framed reads
  refine ⟨s, hs, by simpa using hinv [], fun r m hm => ?_⟩
  have := findIndex_inRange hm
  omega

/-- The frames that a list of reads completes, each with the time of the read that completes it. -/
def completionsFrom (seen : List UInt8) : List Read → List (List UInt8 × ℕ)
  | [] => []
  | r :: reads =>
    ((rawFrames (seen ++ r.bytes)).drop (rawFrames seen).length).map (fun raw => (raw, r.now)) ++
      completionsFrom (seen ++ r.bytes) reads

def completions (reads : List Read) : List (List UInt8 × ℕ) := completionsFrom [] reads

/-- The buffer holds no complete frame: all frames of the stream so far were sent, each by the
read that completed it. -/
def Delivered (reads : List Read) (s : Serial) : Prop :=
  payloadFrame.findIndex s.buftotal = none ∧ s.sent.map (·.raw) = rawFrames (stream reads) ∧
    s.sent.map (fun p => (p.raw, p.timestamp)) = completions reads

/-- The last read of the list completes at most one frame of the stream. -/
def CompletesAtMostOne (reads : List Read) (r : Read) : Prop :=
  (rawFrames (stream (reads ++ [r]))).length ≤ (rawFrames (stream reads)).length + 1

theorem completionsFrom_concat (seen : List UInt8) (reads : List Read) (r : Read) :
    completionsFrom seen (reads ++ [r]) = completionsFrom seen reads ++
      ((rawFrames (seen ++ stream reads ++ r.bytes)).drop
        (rawFrames (seen ++ stream reads)).length).map fun raw => (raw, r.now) := by
  induction reads generalizing seen with
  | nil => simp [completionsFrom, stream]
  | cons q reads ih =>
    rw [List.cons_append, completionsFrom, completionsFrom, ih]
    simp [stream, List.append_assoc]

theorem completions_concat (reads : List Read) (r : Read) :
    completions (reads ++ [r]) = completions reads ++
      ((rawFrames (stream reads ++ r.bytes)).drop
        (rawFrames (stream reads)).length).map fun raw => (raw, r.now) := by
  simpa [completions] using completionsFrom_concat [] reads r

/-- A buffer with at most one frame has none behind the leftmost one. -/
theorem findIndex_drop_of_length_le {buf : List UInt8} {m : ℕ × ℕ}
    (h : payloadFrame.findIndex buf = some m) (hlen : (rawFrames buf).length ≤ 1) :
    payloadFrame.findIndex (buf.drop m.2) = none ∧
      rawFrames buf = [rawOf ((buf.take m.2).drop m.1)] := by
  rw [rawFrames, payloadFrame.extract_of_some h] at hlen ⊢
  have hnil : payloadFrame.extract (buf.drop m.2) = [] := by simpa using hlen
  exact ⟨payloadFrame.extract_eq_nil_iff.mp hnil, by rw [hnil]; rfl⟩

theorem rawFrames_eq_nil_iff {buf : List UInt8} :
    rawFrames buf = [] ↔ payloadFrame.findIndex buf = none := by
  rw [rawFrames, List.map_eq_nil_iff, payloadFrame.extract_eq_nil_iff]

theorem delivered_start : Delivered [] Serial.start := ⟨by decide, rfl, rfl⟩

/-- A read that completes at most one frame leaves none behind. -/
theorem delivered_step {reads : List Read} {s : Serial} {r : Read}
    (hs : serialworker reads = some s) (hd : Delivered reads s)
    (hone : CompletesAtMostOne reads r) :
    ∃ s', serialworker (reads ++ [r]) = some s' ∧ Delivered (reads ++ [r]) s' := by
  obtain ⟨hnone, hsent, hstamp⟩ := hd
  have hframed : Framed (stream reads) s := by
    obtain ⟨s₁, hs₁, h⟩ := serialworker_framed reads
    obtain rfl : s = s₁ := Option.some.inj (hs.symm.trans hs₁)
    exact h
  have hnew : rawFrames (stream reads ++ r.bytes) =
      rawFrames (stream reads) ++ rawFrames (s.buftotal ++ r.bytes) := by
    rw [← hframed r.bytes, hsent]
  have hrun : serialworker (reads ++ [r]) = serialRead s r := by rw [serialworker_concat, hs]; rfl
  have hcomp : completions (reads ++ [r]) = s.sent.map (fun p => (p.raw, p.timestamp)) ++
      (rawFrames (s.buftotal ++ r.bytes)).map fun raw => (raw, r.now) := by
    rw [completions_concat, hnew, List.drop_left, hstamp]
  rw [CompletesAtMostOne, stream_concat, hnew, List.length_append] at hone
  rcases serialRead_cases s r with ⟨hr, hstep⟩ | ⟨-, hf, hstep⟩ | ⟨-, m, hf, hstep⟩
  · have hbuf : rawFrames (s.buftotal ++ r.bytes) = [] := by
      rw [hr, List.append_nil]
      exact rawFrames_eq_nil_iff.mpr hnone
    refine ⟨s, hrun.trans hstep, hnone, ?_, ?_⟩
    · rw [stream_concat, hnew, hbuf, List.append_nil, hsent]
    · rw [hcomp, hbuf, List.map_nil, List.append_nil]
  · have hbuf := rawFrames_eq_nil_iff.mpr hf
    refine ⟨_, hrun.trans hstep, hf, ?_, ?_⟩
    · rw [stream_concat, hnew, hbuf, List.append_nil, hsent]
    · rw [hcomp, hbuf, List.map_nil, List.append_nil]
  · obtain ⟨hrest, hbuf⟩ := findIndex_drop_of_length_le hf (by omega)
    refine ⟨_, hrun.trans hstep, hrest, ?_, ?_⟩
    · rw [stream_concat, hnew, hbuf]
      simp [hsent, Packet.ofRaw]
    · rw [hcomp, hbuf]
      simp [Packet.ofRaw]

theorem serialRead_sent_length {s s' : Serial} {r : Read} (h : serialRead s r = some s') :
    s'.sent.length ≤ s.sent.length + 1 := by
  rcases serialRead_cases s r with ⟨-, hs⟩ | ⟨-, -, hs⟩ | ⟨-, m, -, hs⟩ <;>
    obtain rfl := Option.some.inj (hs.symm.trans h) <;> simp

/-- If all frames were sent after a read, the read completed at most one: it sent no more. -/
theorem completesAtMostOne_of_delivered {reads : List Read} {r : Read} {s : Serial}
    (hs : serialworker (reads ++ [r]) = some s) (hd : Delivered (reads ++ [r]) s) :
    CompletesAtMostOne reads r := by
  obtain ⟨s₀, hs₀, hframed⟩ := serialworker_framed reads
  have hstep : serialRead s₀ r = some s := by
    rw [serialworker_concat, hs₀] at hs
    exact hs
  have hlen := congrArg List.length hd.2.1
  have hold := congrArg List.length (hframed [])
  simp only [List.length_append, List.length_map, List.append_nil] at hlen hold
  have := serialRead_sent_length hstep
  unfold CompletesAtMostOne
  omega

theorem delivered_of_completesAtMostOne {reads : List Read}
    (h : ∀ rs r, rs ++ [r] <+: reads → r.bytes ≠ [] → CompletesAtMostOne rs r) :
    ∃ s, serialworker reads = some s ∧ Delivered reads s := by
  induction reads using List.reverseRecOn with
  | nil => exact ⟨.start, rfl, delivered_start⟩
  | append_singleton reads r ih =>
    obtain ⟨s, hs, hd⟩ := ih fun rs q hp => h rs q (hp.trans (List.prefix_append reads [r]))
    apply delivered_step hs hd
    by_cases hr : r.bytes = []
    · simp [CompletesAtMostOne, hr]
    · exact h reads r (List.prefix_refl _) hr

/-- Frames are delivered as soon as they are complete exactly in those runs in which no read
completes two of them. -/
theorem delivered_iff_completesAtMostOne (reads : List Read) :
    (∀ rs r, rs ++ [r] <+: reads → r.bytes ≠ [] →
      ∃ s, serialworker (rs ++ [r]) = some s ∧ Delivered (rs ++ [r]) s) ↔
    ∀ rs r, rs ++ [r] <+: reads → r.bytes ≠ [] → CompletesAtMostOne rs r := by
  constructor
  · intro h rs r hp hr
    obtain ⟨s, hs, hd⟩ := h rs r hp hr
    exact completesAtMostOne_of_delivered hs hd
  · intro h rs r hp _
    exact delivered_of_completesAtMostOne fun rs' q hq => h rs' q (hq.trans hp)

/-- Two frames in one read: the second stays in the buffer. -/
theorem two_frames_in_one_read :
    ∃ s, serialworker [⟨ascii "<PAYLOAD=41;>\n<PAYLOAD=42;>\n", 7⟩] = some s ∧
      s.sent.map (·.raw) = [ascii "PAYLOAD=41;"] ∧
      payloadFrame.findIndex s.buftotal = some (0, 14) ∧
      ¬ Delivered [⟨ascii "<PAYLOAD=41;>\n<PAYLOAD=42;>\n", 7⟩] s := by
  refine ⟨⟨ascii "<PAYLOAD=42;>\n", [.ofRaw (ascii "PAYLOAD=41;") 7]⟩, rfl, rfl,
    by decide, fun h => ?_⟩
  exact absurd h.1 (by decide)

end OflMotes.Gateway
