import OflMotes.Node.Clib

/-! The `net` command of the gateway firmware's shell, with which the host configures the radio.
What it prints is left out. -/
namespace OflMotes.Gateway
open Ascii Node

/-- A call of `gnrc_netapi_set` with its option and data. -/
inductive NetapiSet
  | channel (val : Int16)
  | nid (val : Int16)
  | addressLong (addr : List UInt8)
  | promiscuousmode
  | rawmode
  deriving DecidableEq

/-- `cmd_net`: the options that are set and the result. `gnrc_netif_addr_from_str`, which is not
part of this repository, gives no bytes where it cannot read an address. -/
def cmdNet (addrFromStr : List UInt8 → List UInt8) (iff : Bool) (argv : List (List UInt8)) :
    List NetapiSet × ℕ :=
  let arg (i : ℕ) := argv.getD i []
  if iff = false then ([], 0)
  else if argv.length = 2 ∧ arg 1 = ascii "info" then ([], 0)
  else if argv.length = 3 ∧ arg 1 = ascii "chan" then
    ([.channel (Int16.ofInt (atoi (arg 2 ++ [0])))], 0)
  else if argv.length = 3 ∧ arg 1 = ascii "pan" then
    ([.nid (Int16.ofInt (atoi (arg 2 ++ [0])))], 0)
  else if argv.length = 3 ∧ arg 1 = ascii "addr" then
    let addr := addrFromStr (arg 2)
    if addr.length = 0 then ([], 1) else ([.addressLong addr], 0)
  else if argv.length = 2 ∧ arg 1 = ascii "promisc" then ([.promiscuousmode, .rawmode], 0)
  else ([], 0)

/-- The argument is the number in decimal digits. -/
def WritesDecimal (s : List UInt8) (v : ℕ) : Prop :=
  s ≠ [] ∧ (∀ b ∈ s, IsDigit b) ∧ v = numeral s

/-- The argument is the number in the form `0xXXXX` of the help text. -/
def WritesHex (s : List UInt8) (v : ℕ) : Prop :=
  ∃ hs hi lo, s = ascii "0x" ++ hs ∧ hexDecode hs = some [hi, lo] ∧ v = 256 * hi.toNat + lo.toNat

/-- The argument writes a PAN id. -/
def WritesPan (s : List UInt8) (v : ℕ) : Prop := WritesDecimal s v ∧ v ≤ 65535 ∨ WritesHex s v

/-- The argument writes a channel of the 2.4 GHz band. -/
def WritesChan (s : List UInt8) (v : ℕ) : Prop := WritesDecimal s v ∧ 11 ≤ v ∧ v ≤ 26

section
variable {s : List UInt8}

/-- The 16 bits handed to `gnrc_netapi_set` are those of the number, also from 32768 on. -/
theorem toUInt16_ofInt {n : ℕ} (h : n < 2 ^ 16) : (Int16.ofInt n).toUInt16.toNat = n := by
  change (BitVec.ofInt 16 n).toNat = n
  rw [BitVec.toNat_ofInt]
  omega

theorem atoi_of_writesDecimal {v : ℕ} (h : WritesDecimal s v) (hv : v ≤ 65535) :
    atoi (s ++ [0]) = v := by
  obtain ⟨-, hdigits, rfl⟩ := h
  exact atoi_digits hdigits (by omega) []

/-- Of a hexadecimal argument only the zero in front of the `x` is read. -/
theorem atoi_of_writesHex {v : ℕ} (h : WritesHex s v) : atoi (s ++ [0]) = 0 := by
  obtain ⟨hs, -, -, rfl, -, -⟩ := h
  have hx : ¬ IsDigit (byte 'x') := by decide
  have hzero : IsDigit (byte '0') := by decide
  have hascii : ascii "0x" ++ hs ++ [0] = byte '0' :: byte 'x' :: (hs ++ [0]) := rfl
  have htake : (byte '0' :: byte 'x' :: (hs ++ [0])).takeWhile (fun b => decide (IsDigit b)) =
      [byte '0'] := by
    rw [List.takeWhile_cons_of_pos (by simpa using hzero),
      List.takeWhile_cons_of_neg (by simpa using hx)]
  have hsign : atoiSign (byte '0' :: byte 'x' :: (hs ++ [0])) =
      (false, byte '0' :: byte 'x' :: (hs ++ [0])) := rfl
  rw [hascii, atoi, hsign]
  simp only [htake]
  decide

theorem writesHex_notDecimal {v w : ℕ} (h : WritesHex s v) : ¬ WritesDecimal s w := by
  obtain ⟨hs, -, -, rfl, -, -⟩ := h
  rintro ⟨-, hdigits, -⟩
  have hx : IsDigit (byte 'x') := hdigits _ (by simp [ascii])
  exact absurd hx (by decide)

theorem writesHex_unique {v w : ℕ} (hv : WritesHex s v) (hw : WritesHex s w) : v = w := by
  obtain ⟨hs, hi, lo, rfl, hdec, rfl⟩ := hv
  obtain ⟨hs', hi', lo', he, hdec', rfl⟩ := hw
  obtain rfl := List.append_cancel_left he
  rw [hdec, Option.some.injEq] at hdec'
  obtain ⟨rfl, hlo⟩ := List.cons.inj hdec'
  obtain ⟨rfl, -⟩ := List.cons.inj hlo
  rfl

end

section
variable (addrFromStr : List UInt8 → List UInt8)

/-- The command applies what was typed: a number that the argument writes is handed on in 16 bits,
and with any other argument no option is set. -/
def Applies (name : List UInt8) (set : Int16 → NetapiSet) (writes : List UInt8 → ℕ → Prop)
    (s : List UInt8) : Prop :=
  (∀ v, writes s v → ∃ val : Int16,
    (cmdNet addrFromStr true [ascii "net", name, s]).1 = [set val] ∧ val.toUInt16.toNat = v) ∧
  ((¬ ∃ v, writes s v) → (cmdNet addrFromStr true [ascii "net", name, s]).1 = [])

variable {addrFromStr}

/-- A command that always hands on what `atoi` reads applies what was typed exactly if the argument
writes a number, and that one. -/
theorem applies_iff {name : List UInt8} {set : Int16 → NetapiSet}
    {writes : List UInt8 → ℕ → Prop} (hset : Function.Injective set)
    (hcmd : ∀ s, (cmdNet addrFromStr true [ascii "net", name, s]).1 =
      [set (Int16.ofInt (atoi (s ++ [0])))]) (s : List UInt8) :
    Applies addrFromStr name set writes s ↔
      (∃ v, writes s v) ∧ ∀ v, writes s v → (Int16.ofInt (atoi (s ++ [0]))).toUInt16.toNat = v := by
  unfold Applies
  rw [hcmd]
  constructor
  · rintro ⟨hwritten, hother⟩
    refine ⟨by_contra fun hnone => List.cons_ne_nil _ _ (hother hnone), fun v hv => ?_⟩
    obtain ⟨val, hval, rfl⟩ := hwritten v hv
    rw [hset (List.cons.inj hval).1]
  · rintro ⟨hsome, hbits⟩
    exact ⟨fun v hv => ⟨_, rfl, hbits v hv⟩, fun hnone => absurd hsome hnone⟩

theorem applies_chan_iff (s : List UInt8) :
    Applies addrFromStr (ascii "chan") .channel WritesChan s ↔ ∃ v, WritesChan s v := by
  rw [applies_iff (fun _ _ h => NetapiSet.channel.inj h) fun _ => rfl, and_iff_left]
  rintro v ⟨hdec, -, hle⟩
  rw [atoi_of_writesDecimal hdec (by omega)]
  exact toUInt16_ofInt (by omega)

theorem applies_pan_iff (s : List UInt8) :
    Applies addrFromStr (ascii "pan") .nid WritesPan s ↔
      (∃ v, WritesDecimal s v ∧ v ≤ 65535) ∨ WritesHex s 0 := by
  rw [applies_iff (fun _ _ h => NetapiSet.nid.inj h) fun _ => rfl]
  constructor
  · rintro ⟨⟨v, hdec | hhex⟩, hbits⟩
    · exact .inl ⟨v, hdec⟩
    · have hzero := hbits v (.inr hhex)
      rw [atoi_of_writesHex hhex] at hzero
      have hv : v = 0 := hzero.symm
      exact .inr (hv ▸ hhex)
  · rintro (⟨v, hdec, hle⟩ | hhex)
    · refine ⟨⟨v, .inl ⟨hdec, hle⟩⟩, ?_⟩
      rintro w (⟨hdec', -⟩ | hhex)
      · rw [atoi_of_writesDecimal hdec hle, hdec'.2.2, ← hdec.2.2]
        exact toUInt16_ofInt (by omega)
      · exact absurd hdec (writesHex_notDecimal hhex)
    · refine ⟨⟨0, .inr hhex⟩, ?_⟩
      rintro w (⟨hdec, -⟩ | hhex')
      · exact absurd hdec (writesHex_notDecimal hhex)
      · rw [atoi_of_writesHex hhex, writesHex_unique hhex' hhex]
        rfl

end

/-- The radio commands apply what was typed exactly for the numbers written in decimal digits, and
for `0x0000`. -/
theorem radio_commands_apply_iff (addrFromStr : List UInt8 → List UInt8) (s : List UInt8) :
    (Applies addrFromStr (ascii "pan") .nid WritesPan s ↔
      (∃ v, WritesDecimal s v ∧ v ≤ 65535) ∨ WritesHex s 0) ∧
    (Applies addrFromStr (ascii "chan") .channel WritesChan s ↔
      ∃ v, WritesDecimal s v ∧ 11 ≤ v ∧ v ≤ 26) :=
  ⟨applies_pan_iff s, applies_chan_iff s⟩

/-- The PAN id of the host's command goes through; that of the help text's form does not, and a word
sets channel 0. -/
theorem help_text_pan_is_zero :
    (cmdNet id true [ascii "net", ascii "pan", ascii "61453"]).1 = [.nid (-4083)] ∧
      (-4083 : Int16).toUInt16.toNat = 61453 ∧
      (cmdNet id true [ascii "net", ascii "pan", ascii "0xF00D"]).1 = [.nid 0] ∧
      WritesPan (ascii "0xF00D") 61453 ∧
      ¬ Applies id (ascii "pan") .nid WritesPan (ascii "0xF00D") ∧
      (cmdNet id true [ascii "net", ascii "chan", ascii "abc"]).1 = [.channel 0] ∧
      ¬ Applies id (ascii "chan") .channel WritesChan (ascii "abc") := by
  have hwrites : WritesPan (ascii "0xF00D") 61453 :=
    .inr ⟨ascii "F00D", 0xF0, 0x0D, by decide, by decide, by decide⟩
  have hzero : (cmdNet id true [ascii "net", ascii "pan", ascii "0xF00D"]).1 = [.nid 0] := by
    decide +kernel
  have hword : (cmdNet id true [ascii "net", ascii "chan", ascii "abc"]).1 = [.channel 0] := by
    decide +kernel
  refine ⟨by decide +kernel, by decide, hzero, hwrites, fun h => ?_, hword, fun h => ?_⟩
  · obtain ⟨val, hval, hbits⟩ := h.1 61453 hwrites
    rw [hzero] at hval
    obtain rfl := NetapiSet.nid.inj (List.cons.inj hval).1
    exact absurd hbits (by decide)
  · have hnone : ¬ ∃ v, WritesChan (ascii "abc") v := by
      rintro ⟨v, ⟨-, hdigits, -⟩, -⟩
      exact absurd (hdigits (byte 'a') (by decide)) (by decide)
    have hcalls := h.2 hnone
    rw [hword] at hcalls
    contradiction

end OflMotes.Gateway
