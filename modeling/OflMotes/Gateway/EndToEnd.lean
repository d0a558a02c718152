import OflMotes.Gateway.Pktdump
import OflMotes.Gateway.SerialDelivery

/-! The two halves of the gateway together: the firmware prints received packets on the serial
line and the host cuts the bytes into frames and decodes them. -/
namespace OflMotes.Gateway
open Ascii Framing Fields

section
variable (addrToStr : List UInt8 → List UInt8) (fuel : ℕ)

/-- The bytes on the serial line: dumps of packets, each with other text printed before it. -/
def printed : List (List UInt8 × Received) → Option (List UInt8)
  | [] => some []
  | x :: items => do
    let f ← dump addrToStr fuel x.2.pkt
    let rest ← printed items
    some (x.1 ++ (f ++ rest))

end

/-- What `_eventloop` prints for packets that it receives: its debug line in front of each dump. -/
theorem eventloop_printed (addrToStr : List UInt8 → List UInt8) (fuel : ℕ) (rs : List Received) :
    (rs.mapM fun r => eventloop addrToStr fuel (.rcv r.pkt)).map List.flatten =
      printed addrToStr fuel (rs.map fun r => (ascii "DEBUG: data received:\n", r)) := by
  induction rs with
  | nil => rfl
  | cons r rs ih =>
    rw [List.map_cons, printed, ← ih, List.mapM_cons, eventloop]
    cases dump addrToStr fuel r.pkt with
    | none => rfl
    | some f =>
      cases rs.mapM fun r => eventloop addrToStr fuel (.rcv r.pkt) with
      | none => rfl
      | some ts => simp

/-- Every packet printed by the firmware is extracted as one frame, in order, and decoded to what
was received, whatever marker-free text is printed before and between the dumps. -/
theorem rawFrames_printed_readBack (addrToStr : List UInt8 → List UInt8)
    (haddr : ∀ a, a.length = 8 → ColonHex a (addrToStr a)) (fuel : ℕ) (hfuel : 256 ≤ fuel)
    (items : List (List UInt8 × Received)) (htext : ∀ x ∈ items, ¬ ascii "<PAYLOAD=" <:+: x.1)
    (hwf : ∀ x ∈ items, x.2.WellFormed) (now : ℕ) :
    ∃ out, printed addrToStr fuel items = some out ∧
      List.Forall₂ (fun raw x => x.2.ReadBack addrToStr (decodePacket (.ofRaw raw now)))
        (rawFrames out) items := by
  induction items with
  | nil => exact ⟨[], rfl, .nil⟩
  | cons x items ih =>
    obtain ⟨rest, hrest, hall⟩ := ih (fun y hy => htext y (by simp [hy]))
      (fun y hy => hwf y (by simp [hy]))
    have hx := hwf x (by simp)
    have hbody := body_isBody hx haddr
    refine ⟨x.1 ++ (payloadFrame.frame (x.2.body addrToStr) ++ rest), ?_, ?_⟩
    · simp [printed, dump_received hx hfuel, hrest]
    · rw [rawFrames, payloadFrame.extract_text_frame (htext x (by simp)) hbody, List.map_cons,
        rawOf_frame]
      exact .cons (readBack_body hx haddr now) hall

/-- Two packets, the second with an empty payload, behind the event loop's debug line and text
that ends inside a marker. -/
def twoDumps : List (List UInt8 × Received) :=
  [(ascii "DEBUG: data received:\n", ⟨ascii "T:1;>\n", [0, 0, 0, 0, 0, 0, 0, 37], 120, -61⟩),
    (ascii "<PAYL", ⟨[], [0, 0, 0, 0, 0, 0, 0, 1], 255, 0⟩)]

theorem rawFrames_printed_readBack_two :
    ∃ out, printed colonHexText 256 twoDumps = some out ∧
      List.Forall₂ (fun raw x => Received.ReadBack colonHexText x.2 (decodePacket (.ofRaw raw 0)))
        (rawFrames out) twoDumps := by
  refine rawFrames_printed_readBack colonHexText (fun a _ => colonHex_colonHexText a) 256 le_rfl _
    ?_ ?_ 0
  · simp only [twoDumps, List.mem_cons, List.not_mem_nil, or_false, forall_eq_or_imp, forall_eq]
    decide
  · simp [twoDumps, Received.WellFormed, ascii]

end OflMotes.Gateway
