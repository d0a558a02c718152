import OflMotes.Gateway.PushInflux
import OflMotes.Gateway.Serialworker
import OflMotes.Lib.Rendezvous

/-! The host program of the gateway: `serialworker` runs beside `main` and hands it the packets
through an unbuffered channel, which is all that the two goroutines share. -/
namespace OflMotes.Gateway
open Ascii Rendezvous

/-- Where `main` is: at `<-signals`, at `client.NewHTTPClient`, or at `ps.Len() > 0`. -/
inductive Position
  | receiving
  | opening
  | looping
  deriving DecidableEq

/-- One iteration of `serialworker`, up to the packet with which it comes to `sig <- &pkt`. -/
def serialworkerIteration (s : Serial) (r : Read) : Option (Serial × Option Packet) :=
  (serialRead s r).map fun s' => (s', (s'.sent.drop s.sent.length).head?)

/-- What `main` does with a packet that it has received, up to its call of `push_influx`. -/
def pushBack (k : Position × MainState) (p : Packet) : Position × MainState :=
  (.opening, { k.2 with
    ps := k.2.ps ++ [⟨k.2.arrived, decodePacket p⟩]
    arrived := k.2.arrived + 1 })

section
variable (client : Client)

/-- The steps of `main`: it waits for a packet, or does the next round of `push_influx`. -/
def mainWork : Position × MainState → Move (Position × MainState)
  | (.receiving, _) => .waits
  | (.opening, g) =>
    if client.newHTTPClient g.calls.count then
      .goes (.looping, { g with calls := { g.calls with count := g.calls.count + 1 } })
    else .panics
  | (.looping, g) =>
    match g.ps with
    | [] => .goes (.receiving, g)
    | e :: ps =>
      match pushFront client g.calls e with
      | (true, _, c) => .goes (.looping, { g with ps := ps, calls := c })
      | (false, e, c) => .goes (.receiving, { g with ps := e :: ps, calls := c })

/-- Both goroutines. -/
def host : System Serial (Position × MainState) Read Packet :=
  ⟨serialworkerIteration, mainWork client, pushBack⟩

/-- What `main` is about to finish with, if no further packet arrives. -/
def finish : Position × MainState → Option MainState
  | (.receiving, g) => some g
  | (.opening, g) => pushInflux client g
  | (.looping, g) =>
    let (calls, ps) := pushLoop client g.calls g.ps
    some { g with ps := ps, calls := calls }

end

abbrev HostState := State Serial (Position × MainState) Read Packet

def Host.start : HostState := System.start .start (.receiving, .start)

/-- The state of the program after any order of steps. -/
def Host.run (client : Client) (es : List (Rendezvous.Event Read)) : HostState :=
  Run.run (host client).step start es

section
variable {client : Client}

/-- All that a turn of `main` can do. -/
theorem mainWork_cases (client : Client) (k : Position × MainState) :
    (k.1 = .receiving ∧ mainWork client k = .waits) ∨
    (∃ g, k = (.opening, g) ∧ client.newHTTPClient g.calls.count = true ∧
      mainWork client k =
        .goes (.looping, { g with calls := { g.calls with count := g.calls.count + 1 } })) ∨
    (∃ g, k = (.opening, g) ∧ client.newHTTPClient g.calls.count = false ∧
      mainWork client k = .panics) ∨
    (∃ g, k = (.looping, g) ∧ g.ps = [] ∧ mainWork client k = .goes (.receiving, g)) ∨
    (∃ g e ps e' c, k = (.looping, g) ∧ g.ps = e :: ps ∧ pushFront client g.calls e = (true, e', c) ∧
      mainWork client k = .goes (.looping, { g with ps := ps, calls := c })) ∨
    ∃ g e ps e' c, k = (.looping, g) ∧ g.ps = e :: ps ∧ pushFront client g.calls e = (false, e', c) ∧
      mainWork client k = .goes (.receiving, { g with ps := e' :: ps, calls := c }) := by
  obtain ⟨position, g⟩ := k
  cases position with
  | receiving => exact .inl ⟨rfl, rfl⟩
  | opening =>
    cases hhttp : client.newHTTPClient g.calls.count with
    | true => exact .inr (.inl ⟨g, rfl, hhttp, by simp [mainWork, hhttp]⟩)
    | false => exact .inr (.inr (.inl ⟨g, rfl, hhttp, by simp [mainWork, hhttp]⟩))
  | looping =>
    cases hps : g.ps with
    | nil => exact .inr (.inr (.inr (.inl ⟨g, rfl, hps, by simp [mainWork, hps]⟩)))
    | cons e ps =>
      rcases hf : pushFront client g.calls e with ⟨_ | _, e', c⟩
      · exact .inr (.inr (.inr (.inr (.inr ⟨g, e, ps, e', c, rfl, hps, hf, by simp [mainWork, hps, hf]⟩))))
      · exact .inr (.inr (.inr (.inr (.inl ⟨g, e, ps, e', c, rfl, hps, hf, by simp [mainWork, hps, hf]⟩))))

/-- A step of `main` leads to what it would finish with before. -/
theorem finish_of_goes {k k' : Position × MainState} (h : mainWork client k = .goes k') :
    finish client k' = finish client k := by
  rcases mainWork_cases client k with ⟨-, hk⟩ | ⟨g, rfl, hhttp, hk⟩ | ⟨g, rfl, -, hk⟩ |
    ⟨g, rfl, hps, hk⟩ | ⟨g, e, ps, e', c, rfl, hps, hf, hk⟩ | ⟨g, e, ps, e', c, rfl, hps, hf, hk⟩ <;>
    rw [hk] at h
  · contradiction
  · obtain rfl := Move.goes.inj h
    simp [finish, pushInflux, hhttp]
  · contradiction
  · obtain rfl := Move.goes.inj h
    obtain ⟨ps, arrived, calls⟩ := g
    obtain rfl : ps = [] := hps
    rfl
  · obtain rfl := Move.goes.inj h
    simp [finish, hps, pushLoop, hf]
  · obtain rfl := Move.goes.inj h
    simp [finish, hps, pushLoop, hf]

theorem mainWork_eq_waits {k : Position × MainState} (h : mainWork client k = .waits) :
    k.1 = .receiving := by
  rcases mainWork_cases client k with ⟨hk, -⟩ | ⟨g, rfl, -, hk⟩ | ⟨g, rfl, -, hk⟩ |
    ⟨g, rfl, -, hk⟩ | ⟨g, e, ps, e', c, rfl, -, -, hk⟩ | ⟨g, e, ps, e', c, rfl, -, -, hk⟩
  · exact hk
  all_goals exact absurd (hk.symm.trans h) (by simp)

theorem mainWork_of_receiving {k : Position × MainState} (h : k.1 = .receiving) :
    mainWork client k = .waits := by
  obtain ⟨position, g⟩ := k
  obtain rfl : position = .receiving := h
  rfl

theorem atRest_of_receiving {h : HostState} (hended : h.ended = false)
    (hsending : h.sending.isNone = true) (hposition : h.consumer.1 = .receiving) :
    System.AtRest (host client) h :=
  ⟨hended, Option.isNone_iff_eq_none.mp hsending, mainWork_of_receiving hposition⟩

theorem finish_of_waits {k : Position × MainState} (h : mainWork client k = .waits) :
    finish client k = some k.2 := by
  obtain ⟨position, g⟩ := k
  obtain rfl : position = .receiving := mainWork_eq_waits h
  rfl

/-- A packet received starts the next round of `main`. -/
theorem finish_pushBack {k : Position × MainState} (p : Packet) (h : mainWork client k = .waits) :
    finish client (pushBack k p) = (finish client k).bind (mainRound client · p) := by
  rw [finish_of_waits h]
  rfl

/-- The packets handed over are those that the loop of `serialworker` sends. -/
theorem sequential_host (reads : List Read) :
    (host client).sequential .start reads = (serialworker reads).map fun s => (s, s.sent) := by
  induction reads using List.reverseRecOn with
  | nil => rfl
  | append_singleton reads r ih =>
    obtain ⟨s, hs, -⟩ := serialworker_framed reads
    rw [System.sequential_concat, ih, serialworker_concat, hs]
    simp only [Option.map_some, Option.bind_some, host, serialworkerIteration]
    rcases serialRead_cases s r with ⟨-, hr⟩ | ⟨-, -, hr⟩ | ⟨-, m, -, hr⟩ <;> simp [hr]

/-- Any order of the steps of both goroutines computes what the two loops compute one after the
other: `serialworker` over all reads, and `main` over the packets received so far. -/
theorem host_refines (client : Client) (es : List (Rendezvous.Event Read)) :
    let h := Host.run client es
    serialworker h.inputs = some h.producer ∧
      h.producer.sent = h.passed ++ h.sending.toList ∧
      main client h.passed = finish client h.consumer := by
  have hp : (host client).sequential .start (Host.run client es).inputs = _ :=
    (host client).run_producer .start (.receiving, .start) es
  have hc : finish client (Host.run client es).consumer = _ :=
    System.run_consumer (A := host client) (finish client) (mainRound client)
      (fun _ _ => finish_of_goes) (fun _ p h => finish_pushBack p h) .start (.receiving, .start) es
  obtain ⟨s, hs, -⟩ := serialworker_framed (Host.run client es).inputs
  rw [sequential_host, hs] at hp
  obtain ⟨rfl, hsent⟩ := Prod.mk.inj (Option.some.inj hp)
  exact ⟨hs, hsent, hc.symm⟩

/-- How many more turns `main` needs at most before it waits for a packet. -/
def mainRank (k : Position × MainState) : ℕ :=
  k.2.ps.length + match k.1 with | .receiving => 0 | .looping => 1 | .opening => 2

theorem mainRank_of_goes {k k' : Position × MainState} (h : mainWork client k = .goes k') :
    mainRank k' < mainRank k := by
  rcases mainWork_cases client k with ⟨-, hk⟩ | ⟨g, rfl, -, hk⟩ | ⟨g, rfl, -, hk⟩ |
    ⟨g, rfl, hps, hk⟩ | ⟨g, e, ps, e', c, rfl, hps, -, hk⟩ | ⟨g, e, ps, e', c, rfl, hps, -, hk⟩ <;>
    rw [hk] at h
  · contradiction
  · obtain rfl := Move.goes.inj h
    simp [mainRank]
  · contradiction
  · obtain rfl := Move.goes.inj h
    simp [mainRank]
  · obtain rfl := Move.goes.inj h
    simp [mainRank, hps]
  · obtain rfl := Move.goes.inj h
    simp [mainRank, hps]

theorem mainWork_ne_panics (hhttp : ∀ n, client.newHTTPClient n = true) (k : Position × MainState) :
    mainWork client k ≠ .panics := by
  intro h
  rcases mainWork_cases client k with ⟨-, hk⟩ | ⟨g, rfl, -, hk⟩ | ⟨g, rfl, hno, -⟩ |
    ⟨g, rfl, -, hk⟩ | ⟨g, e, ps, e', c, rfl, -, -, hk⟩ | ⟨g, e, ps, e', c, rfl, -, -, hk⟩
  case inr.inr.inl => simp [hhttp] at hno
  all_goals exact absurd (hk.symm.trans h) (by simp)

theorem mainRank_pushBack {k : Position × MainState} (p : Packet) (h : mainWork client k = .waits) :
    mainRank (pushBack k p) ≤ mainRank k + 3 := by
  simp [mainRank, pushBack, mainWork_eq_waits h]

/-- The program does not end while HTTP clients can be created: `serialworker` never panics. -/
theorem host_running (hhttp : ∀ n, client.newHTTPClient n = true)
    (es : List (Rendezvous.Event Read)) : (Host.run client es).ended = false := by
  have hinv : serialworker (Host.run client es).inputs = some (Host.run client es).producer ∧
      (Host.run client es).ended = false := by
    refine Run.run_invariant (I := fun h : HostState =>
      serialworker h.inputs = some h.producer ∧ h.ended = false) ?_ ⟨rfl, rfl⟩ es
    rintro h e ⟨hserial, hended⟩
    have hread (r : Read) : ∃ s, serialRead h.producer r = some s ∧
        serialworker (h.inputs ++ [r]) = some s := by
      obtain ⟨s, hs, -⟩ := serialworker_framed (h.inputs ++ [r])
      rw [serialworker_concat, hserial] at hs ⊢
      exact ⟨s, hs, hs⟩
    rcases (host client).step_cases h e with hs | ⟨r, -, -, hp, -⟩ | ⟨r, p, m, -, -, hp, hs⟩ |
      ⟨m, -, -, -, hs⟩ | ⟨k', -, -, hs⟩ | ⟨-, -, hw, -⟩
    · rw [hs]
      exact ⟨hserial, hended⟩
    · obtain ⟨s, hs, -⟩ := hread r
      simp [host, serialworkerIteration, hs] at hp
    · obtain ⟨s, hs', hworker⟩ := hread r
      obtain ⟨rfl, -⟩ : s = p ∧ _ := by simpa [host, serialworkerIteration, hs'] using hp
      rw [hs]
      exact ⟨hworker, hended⟩
    · rw [hs]
      exact ⟨hserial, hended⟩
    · rw [hs]
      exact ⟨hserial, hended⟩
    · exact absurd hw (mainWork_ne_panics hhttp _)
  exact hinv.2

/-- A database that refuses every batch. -/
def refusingClient : Client := ⟨fun _ => true, fun _ => true, fun _ _ => true, fun _ _ => false⟩

/-- While HTTP clients can be created, every reachable state comes to rest without further reads,
after a number of steps that the queue bounds, and in a state that the reads alone determine:
`main` holds what its loop makes of all packets sent. -/
theorem host_settles (client : Client) (hhttp : ∀ n, client.newHTTPClient n = true)
    (es : List (Rendezvous.Event Read)) :
    ∃ fs, fs.length ≤ 2 * (Host.run client es).consumer.2.ps.length + 8 ∧
      let h := Host.run client (es ++ fs)
      h.inputs = (Host.run client es).inputs ∧ System.AtRest (host client) h ∧
        (∃ g, main client h.producer.sent = some g ∧ h.consumer = (.receiving, g)) ∧
        ∀ es', System.AtRest (host client) (Host.run client es') →
          (Host.run client es').inputs = h.inputs → Host.run client es' = h := by
  obtain ⟨fs, hlen, hinputs, hrest⟩ := System.exists_atRest (A := host client)
    mainRank (fun _ _ => mainRank_of_goes) (mainWork_ne_panics hhttp)
    (fun _ p h => mainRank_pushBack p h) (Host.run client es) (host_running hhttp es)
  have hrun : Run.run (host client).step (Host.run client es) fs = Host.run client (es ++ fs) :=
    (Run.run_append _ _ es fs).symm
  rw [hrun] at hinputs hrest
  refine ⟨fs, hlen.trans ?_, hinputs, hrest, ?_, fun es' hrest' hinputs' => ?_⟩
  · unfold mainRank
    split <;> omega
  · obtain ⟨-, hsent, hmain⟩ := host_refines client (es ++ fs)
    rw [hrest.sending, Option.toList_none, List.append_nil] at hsent
    refine ⟨(Host.run client (es ++ fs)).consumer.2, ?_, ?_⟩
    · rw [hsent, hmain, finish_of_waits hrest.waits]
    · exact Prod.ext (mainWork_eq_waits hrest.waits) rfl
  · refine System.atRest_eq (finish client) (mainRound client)
      (fun _ _ => finish_of_goes) (fun _ p h => finish_pushBack p h) ?_ hrest' hrest hinputs'
    intro k k' hk hk' hfinish
    rw [finish_of_waits hk, finish_of_waits hk'] at hfinish
    exact Prod.ext ((mainWork_eq_waits hk).trans (mainWork_eq_waits hk').symm)
      (Option.some.inj hfinish)

/-- Two packets at once: `main` is about to open a client for the first, and `serialworker` waits
with the second. -/
def twoPackets : List (Rendezvous.Event Read) :=
  [.input ⟨ascii "<PAYLOAD=41;>\n", 7⟩, .meet, .input ⟨ascii "<PAYLOAD=42;>\n", 8⟩]

theorem host_settles_twoPackets :
    ∃ fs, fs.length ≤ 2 * (Host.run refusingClient twoPackets).consumer.2.ps.length + 8 ∧
      System.AtRest (host refusingClient) (Host.run refusingClient (twoPackets ++ fs)) := by
  obtain ⟨fs, hlen, -, hrest, -⟩ := host_settles refusingClient (fun _ => rfl) twoPackets
  exact ⟨fs, hlen, hrest⟩

/-- While HTTP clients can be created, `serialworker` does not wait forever with a packet: once
`main` has had two turns more than packets wait in its queue, in whatever order with other steps,
it takes the packet. -/
theorem host_released (client : Client) (hhttp : ∀ n, client.newHTTPClient n = true)
    (es fs : List (Rendezvous.Event Read)) (p : Packet)
    (hsending : (Host.run client es).sending = some p)
    (hturns : (Host.run client es).consumer.2.ps.length + 2 ≤ turns fs) :
    (Host.run client es).passed ++ [p] <+: (Host.run client (es ++ fs ++ [.meet])).passed := by
  have hrank : mainRank (Host.run client es).consumer ≤ turns fs := by
    refine le_trans ?_ hturns
    unfold mainRank
    split <;> omega
  have h := System.released (A := host client) mainRank (fun _ _ => mainRank_of_goes)
    (mainWork_ne_panics hhttp) (host_running hhttp es) hsending (.inr hrank)
  rwa [Host.run, ← Run.run_append, ← List.append_assoc] at h

theorem host_released_twoPackets :
    (Host.run refusingClient twoPackets).passed ++ [.ofRaw (ascii "PAYLOAD=42;") 8] <+:
      (Host.run refusingClient (twoPackets ++
        [.turn, .input ⟨ascii "<PAYLOAD=43;>\n", 9⟩, .turn, .meet, .turn] ++ [.meet])).passed :=
  host_released refusingClient (fun _ => rfl) twoPackets _ _ rfl (by decide)

theorem lossless_congr {packets : List Packet} {ps : List Element} {c c' : Calls}
    (h : Lossless packets ps c) (hpoints : c'.points = c.points) (htried : c'.tried = c.tried)
    (hwritten : c'.written = c.written) : Lossless packets ps c' :=
  ⟨by rw [hwritten, h.order], h.waiting, by rw [hpoints]; exact h.asked,
    by rw [htried]; exact h.tried, by rw [hwritten, htried]; exact h.subset⟩

/-- `main` keeps its queue lossless over the packets received, also where it is about to end. -/
theorem host_lossless (client : Client) (es : List (Rendezvous.Event Read)) :
    let h := Host.run client es
    h.consumer.2.arrived = h.passed.length ∧
      Lossless h.passed h.consumer.2.ps h.consumer.2.calls := by
  refine Run.run_invariant (I := fun h : HostState => h.consumer.2.arrived = h.passed.length ∧
    Lossless h.passed h.consumer.2.ps h.consumer.2.calls) ?_ ?_ es
  · rintro h e ⟨harrived, hlossless⟩
    rcases (host client).step_cases h e with hs | ⟨r, -, -, -, hs⟩ | ⟨r, p, m, -, -, -, hs⟩ |
      ⟨p, -, -, -, hs⟩ | ⟨k, -, hw, hs⟩ | ⟨-, -, -, hs⟩ <;> rw [hs]
    · exact ⟨harrived, hlossless⟩
    · exact ⟨harrived, hlossless⟩
    · exact ⟨harrived, hlossless⟩
    · refine ⟨by simp [host, pushBack, harrived], ?_⟩
      simp only [host, pushBack, harrived]
      exact lossless_congr (lossless_pushBack p hlossless) rfl rfl rfl
    · generalize h.consumer = k₀ at hw harrived hlossless
      rcases mainWork_cases client k₀ with ⟨-, hk⟩ | ⟨g, rfl, -, hk⟩ | ⟨g, rfl, -, hk⟩ |
        ⟨g, rfl, -, hk⟩ | ⟨g, e, ps, e', c, rfl, hps, hf, hk⟩ | ⟨g, e, ps, e', c, rfl, hps, hf, hk⟩ <;>
        rw [show (host client).work = mainWork client from rfl, hk] at hw
      · contradiction
      · obtain rfl := Move.goes.inj hw
        exact ⟨harrived, lossless_congr hlossless rfl rfl rfl⟩
      · contradiction
      · obtain rfl := Move.goes.inj hw
        exact ⟨harrived, hlossless⟩
      all_goals
        obtain rfl := Move.goes.inj hw
        simp only [hps] at hlossless
        refine ⟨harrived, ?_⟩
        rcases lossless_pushFront client hlossless with ⟨e₁, c₁, hf', h'⟩ | ⟨e₁, c₁, hf', h'⟩ <;>
          rw [hf] at hf' <;> obtain ⟨⟨⟩, rfl, rfl⟩ := hf'
        exact h'
    · exact ⟨harrived, hlossless⟩
  · exact ⟨rfl, rfl, by simp [Host.start, System.start, MainState.start],
      by simp [Host.start, System.start, MainState.start],
      by simp [Host.start, System.start, MainState.start],
      by simp [Host.start, System.start, MainState.start]⟩

end

theorem filterMap_range_getElem? {α β : Type*} (f : α → β) (l : List α) :
    (List.range l.length).filterMap (fun i => (l[i]?).map f) = l.map f := by
  induction l using List.reverseRecOn with
  | nil => rfl
  | append_singleton l a ih =>
    rw [List.length_append, List.length_singleton, List.range_succ, List.filterMap_append,
      List.map_append, ← ih]
    congr 1
    · refine List.filterMap_congr fun i hi => ?_
      rw [List.getElem?_append_left (List.mem_range.mp hi)]
    · simp

@[simp] theorem decodePacket_raw (p : Packet) : (decodePacket p).raw = p.raw := by
  have hfold := decodeHeader_foldl (p.raw.splitOn (byte ';')) { p with datamap := ∅ }
  unfold decodePacket decodePacketWith
  simp only [hfold]
  split <;> rfl

namespace Host

/-- The raw strings of the packets written to the database. -/
def written (h : HostState) : List (List UInt8) :=
  h.consumer.2.calls.written.filterMap fun b => (h.passed[b.1]?).map (·.raw)

/-- The raw strings of the packets in the queue of `main`. -/
def waiting (h : HostState) : List (List UInt8) := h.consumer.2.ps.map (·.packet.raw)

theorem written_waiting_raw (client : Client) (es : List (Rendezvous.Event Read)) :
    written (run client es) ++ waiting (run client es) = (run client es).passed.map (·.raw) := by
  obtain ⟨-, hlossless⟩ := host_lossless client es
  have hwaiting : waiting (Host.run client es) =
      ((Host.run client es).consumer.2.ps.map (·.arrival)).filterMap
        fun i => ((Host.run client es).passed[i]?).map (·.raw) := by
    rw [waiting, List.filterMap_map, ← List.filterMap_eq_map]
    refine List.filterMap_congr fun e he => ?_
    obtain ⟨p, hp, hstamp⟩ := Option.map_eq_some_iff.mp (hlossless.waiting e he)
    have hraw : p.raw = e.packet.raw := by
      simpa [Packet.stamp] using congrArg Packet.raw hstamp
    simp [hp, hraw]
  have hwritten : written (Host.run client es) =
      ((Host.run client es).consumer.2.calls.written.map Prod.fst).filterMap
        fun i => ((Host.run client es).passed[i]?).map (·.raw) := by
    rw [written, List.filterMap_map]
    rfl
  rw [hwritten, hwaiting, ← List.filterMap_append, hlossless.order, filterMap_range_getElem?]

/-- All frames read so far are where the program keeps them. -/
theorem frames_eq (client : Client) (es : List (Rendezvous.Event Read)) :
    written (run client es) ++ waiting (run client es) ++
        (run client es).sending.toList.map (·.raw) ++ rawFrames (run client es).producer.buftotal =
      rawFrames (stream (run client es).inputs) := by
  obtain ⟨hserial, hsent, -⟩ := host_refines client es
  obtain ⟨s, hs, hframed⟩ := serialworker_framed (Host.run client es).inputs
  obtain rfl := Option.some.inj (hs.symm.trans hserial)
  have hall := hframed []
  rw [List.append_nil, List.append_nil, hsent, List.map_append, ← written_waiting_raw client es] at hall
  exact hall

/-- A batch written is the point of the packet whose arrival it was made for. -/
theorem written_point {client : Client} {es : List (Rendezvous.Event Read)}
    {b : ℕ × List Point} (hb : b ∈ (Host.run client es).consumer.2.calls.written) :
    ∃ p, (Host.run client es).passed[b.1]? = some p ∧ b.2 = [(decodePacket p).stamp.point] := by
  obtain ⟨-, hlossless⟩ := host_lossless client es
  obtain ⟨p, hp, hpt⟩ := Option.map_eq_some_iff.mp (hlossless.sent b hb)
  exact ⟨p, hp, hpt.symm⟩

end Host

/-- In every state that both goroutines can reach, whatever the database client answers, each frame
of the bytes read so far is in exactly one place, and in the order of the stream: written to the
database, with the point of its own packet, waiting in the queue of `main`, on the channel, or
still in the buffer of `serialworker`. -/
theorem host_conserves (client : Client) (es : List (Rendezvous.Event Read)) :
    let h := Host.run client es
    Host.written h ++ Host.waiting h ++ h.sending.toList.map (·.raw) ++
        rawFrames h.producer.buftotal = rawFrames (stream h.inputs) ∧
      (Host.written h).length = h.consumer.2.calls.written.length ∧
      ∀ b ∈ h.consumer.2.calls.written, ∃ p, h.passed[b.1]? = some p ∧
        b.2 = [(decodePacket p).stamp.point] := by
  refine ⟨Host.frames_eq client es, ?_, fun b => Host.written_point⟩
  rw [Host.written, List.filterMap_length_eq_length]
  intro b hb
  obtain ⟨p, hp, -⟩ := Host.written_point hb
  simp [hp]

end OflMotes.Gateway
