import OflMotes.Gateway.DecodePacket
import OflMotes.Lib.Framing

/-! `serialworker` of the host gateway: the bytes of the serial port are collected in
`buftotal`, and each read that leaves a complete frame in it sends the leftmost one on. -/
namespace OflMotes.Gateway
open Ascii Framing

/-- The delimiters of the regexp `<PAYLOAD=[^>]+>\n`. -/
def payloadFrame : Delim UInt8 where
  head := byte '<'
  more := ascii "PAYLOAD="
  stop := byte '>'
  tail := ascii "\n"
  head_notMem_more := by decide
  head_ne_stop := by decide
  head_notMem_tail := by decide
  stop_notMem_more := by decide

/-- `buf[i:j]`, none where the indices are out of range and Go panics. -/
def slice (buf : List UInt8) (i j : ℕ) : Option (List UInt8) :=
  if i ≤ j ∧ j ≤ buf.length then some ((buf.take j).drop i) else none

/-- One `s.Read`: the bytes it returned and the time at which they are processed. -/
structure Read where
  bytes : List UInt8
  now : ℕ

/-- The loop's buffer and the packets sent on the channel so far. -/
structure Serial where
  buftotal : List UInt8
  sent : List Packet

/-- `make([]byte, 1)` puts a zero byte in front of the stream. -/
def Serial.start : Serial := ⟨[0], []⟩

/-- One iteration of the loop, none where it panics. -/
def serialRead (s : Serial) (r : Read) : Option Serial :=
  if r.bytes.length > 0 then
    let buftotal := s.buftotal ++ r.bytes
    match payloadFrame.findIndex buftotal with
    | none => some { s with buftotal := buftotal }
    | some m => do
      let raw ← slice buftotal (m.1 + 1) (m.2 - 2)
      let rest ← slice buftotal m.2 buftotal.length
      some ⟨rest, s.sent ++ [.ofRaw raw r.now]⟩
  else some s

/-- The loop after a list of reads. -/
def serialworker (reads : List Read) : Option Serial := reads.foldlM serialRead .start

def stream (reads : List Read) : List UInt8 := reads.flatMap (·.bytes)

/-- What is sent of a complete frame: neither the leading `<` nor the trailing `>` and newline. -/
def rawOf (w : List UInt8) : List UInt8 := (w.drop 1).take (w.length - 3)

/-- The raw strings of the frames that repeated leftmost extraction finds. -/
def rawFrames (buf : List UInt8) : List (List UInt8) := (payloadFrame.extract buf).map rawOf

theorem payloadFrame_length (b : List UInt8) :
    (payloadFrame.frame b).length = b.length + 11 := by
  simp [Delim.marker, payloadFrame, show (ascii "PAYLOAD=").length = 8 by rfl,
    show (ascii "\n").length = 1 by rfl]
  omega

theorem rawOf_frame (b : List UInt8) : rawOf (payloadFrame.frame b) = ascii "PAYLOAD=" ++ b := by
  have h : (payloadFrame.frame b).drop 1 = (ascii "PAYLOAD=" ++ b) ++ ascii ">\n" := by
    simp [Delim.frame, Delim.marker, payloadFrame, show ascii ">\n" = [byte '>', byte '\n'] by rfl,
      show ascii "\n" = [byte '\n'] by rfl]
  rw [rawOf, h, payloadFrame_length, List.take_left']
  rw [List.length_append, show (ascii "PAYLOAD=").length = 8 by rfl]
  omega

theorem findIndex_inRange {buf : List UInt8} {m : ℕ × ℕ}
    (h : payloadFrame.findIndex buf = some m) : m.1 + 11 ≤ m.2 ∧ m.2 ≤ buf.length := by
  obtain ⟨pre, b, rest, hb, rfl, rfl⟩ := payloadFrame.findIndex_eq_some h
  simp only [List.length_append, payloadFrame_length]
  omega

/-- The two slices of the loop are in range, whatever the buffer. -/
theorem slice_match {buf : List UInt8} {m : ℕ × ℕ} (h : payloadFrame.findIndex buf = some m) :
    slice buf (m.1 + 1) (m.2 - 2) = some (rawOf ((buf.take m.2).drop m.1)) ∧
      slice buf m.2 buf.length = some (buf.drop m.2) := by
  have hm := findIndex_inRange h
  constructor
  · have hlen : ((buf.take m.2).drop m.1).length - 3 = m.2 - 2 - (m.1 + 1) := by simp; omega
    rw [slice, if_pos (by omega), rawOf, List.drop_drop, hlen, ← List.drop_take, List.take_take,
      min_eq_left (by omega)]
  · rw [slice, if_pos (by omega), List.take_length]

/-- What one iteration does: nothing without bytes; otherwise the bytes are appended and the
leftmost frame, if there is one, is sent and removed with all that precedes it. -/
theorem serialRead_cases (s : Serial) (r : Read) :
    (r.bytes = [] ∧ serialRead s r = some s) ∨
    (r.bytes ≠ [] ∧ payloadFrame.findIndex (s.buftotal ++ r.bytes) = none ∧
      serialRead s r = some ⟨s.buftotal ++ r.bytes, s.sent⟩) ∨
    (r.bytes ≠ [] ∧ ∃ m, payloadFrame.findIndex (s.buftotal ++ r.bytes) = some m ∧
      serialRead s r = some ⟨(s.buftotal ++ r.bytes).drop m.2,
        s.sent ++ [.ofRaw (rawOf (((s.buftotal ++ r.bytes).take m.2).drop m.1)) r.now]⟩) := by
  by_cases hr : r.bytes = []
  · exact .inl ⟨hr, by simp [serialRead, hr]⟩
  · have hpos : r.bytes.length > 0 := List.length_pos_iff.mpr hr
    cases hf : payloadFrame.findIndex (s.buftotal ++ r.bytes) with
    | none => exact .inr (.inl ⟨hr, rfl, by simp only [serialRead, if_pos hpos, hf]⟩)
    | some m =>
      obtain ⟨hraw, hrest⟩ := slice_match hf
      exact .inr (.inr ⟨hr, m, rfl, by
        simp only [serialRead, if_pos hpos, hf, hraw, hrest, Option.bind_eq_bind, Option.bind_some]⟩)

theorem serialworker_concat (reads : List Read) (r : Read) :
    serialworker (reads ++ [r]) = (serialworker reads).bind (serialRead · r) := by
  simp [serialworker, List.foldlM_append]

@[simp] theorem stream_concat (reads : List Read) (r : Read) :
    stream (reads ++ [r]) = stream reads ++ r.bytes := by simp [stream]

/-- The zero byte in front of the stream begins no frame. -/
theorem rawFrames_zero_cons (s : List UInt8) : rawFrames (0 :: s) = rawFrames s := by
  rw [rawFrames, payloadFrame.extract_cons_of_ne (by decide)]
  rfl

/-- The loop's invariant: whatever arrives later, the frames of the whole stream are those sent
and those still to be found behind the retained bytes. -/
def Framed (seen : List UInt8) (s : Serial) : Prop :=
  ∀ t, s.sent.map (·.raw) ++ rawFrames (s.buftotal ++ t) = rawFrames (seen ++ t)

theorem framed_start : Framed [] Serial.start := by
  intro t
  exact rawFrames_zero_cons t

theorem framed_step {seen : List UInt8} {s : Serial} (h : Framed seen s) (r : Read) :
    ∃ s', serialRead s r = some s' ∧ Framed (seen ++ r.bytes) s' := by
  rcases serialRead_cases s r with ⟨hr, hs⟩ | ⟨-, -, hs⟩ | ⟨-, m, hm, hs⟩
  · exact ⟨s, hs, by simpa [hr] using h⟩
  · refine ⟨_, hs, fun t => ?_⟩
    simpa using h (r.bytes ++ t)
  · refine ⟨_, hs, fun t => ?_⟩
    have ht := h (r.bytes ++ t)
    rw [← List.append_assoc, ← List.append_assoc] at ht
    rw [← ht, rawFrames, rawFrames, payloadFrame.extract_append_of_some hm t]
    simp [Packet.ofRaw]

/-- The loop never panics and keeps its invariant over every list of reads. -/
theorem serialworker_framed (reads : List Read) :
    ∃ s, serialworker reads = some s ∧ Framed (stream reads) s := by
  induction reads using List.reverseRecOn with
  | nil => exact ⟨.start, rfl, framed_start⟩
  | append_singleton reads r ih =>
    obtain ⟨s, hs, hinv⟩ := ih
    obtain ⟨s', hs', hinv'⟩ := framed_step hinv r
    exact ⟨s', by rw [serialworker_concat, hs]; exact hs', by rwa [stream_concat]⟩

/-- The loop sends packets with nothing but their raw string and time filled in. -/
theorem serialworker_sent_ofRaw {reads : List Read} {s : Serial} (h : serialworker reads = some s) :
    ∀ p ∈ s.sent, p = .ofRaw p.raw p.timestamp := by
  induction reads using List.reverseRecOn generalizing s with
  | nil =>
    obtain rfl := Option.some.inj h
    simp [Serial.start]
  | append_singleton reads r ih =>
    obtain ⟨s₀, hs₀, -⟩ := serialworker_framed reads
    have hold := ih hs₀
    rw [serialworker_concat, hs₀, Option.bind_some] at h
    rcases serialRead_cases s₀ r with ⟨-, hs⟩ | ⟨-, -, hs⟩ | ⟨-, m, -, hs⟩ <;>
      obtain rfl := Option.some.inj (hs.symm.trans h)
    · exact hold
    · exact hold
    · intro p hp
      rcases List.mem_append.mp hp with hp | hp
      · exact hold p hp
      · obtain rfl := List.mem_singleton.mp hp
        rfl

end OflMotes.Gateway
