import OflMotes.Gateway.CmdNet
import OflMotes.Node.Radio

/-! How the host sets up the gateway: the commands that it writes to the serial line before it starts
to read, the shell of the firmware that takes them, and what they make of the gateway's radio. -/
namespace OflMotes.Gateway
open Ascii Node

/-- What the `net` command can change: the options of the interface, and whether `pktdump` prints what
is received. -/
structure Firmware where
  channel : Int16
  nid : Int16
  addressLong : List UInt8
  promiscuousmode : Bool
  rawmode : Bool
  pktdump : Bool
  deriving DecidableEq

/-- The firmware with this option and no other change. -/
def Firmware.put (g : Firmware) : NetapiSet → Firmware
  | .channel val => { g with channel := val }
  | .nid val => { g with nid := val }
  | .addressLong addr => { g with addressLong := addr }
  | .promiscuousmode => { g with promiscuousmode := true }
  | .rawmode => { g with rawmode := true }

/-- What the firmware calls of RIOT and its driver: whether there is an interface, how an address is
read, what `gnrc_netapi_set` makes of the options, and which frames the modem takes off the air and
passes on. -/
structure Modem where
  netifIter : Bool
  addrFromStr : List UInt8 → List UInt8
  netapiSet : Firmware → NetapiSet → Firmware
  passes : Firmware → Frame → Bool

/-- There is an interface, which takes the options and reads addresses. -/
structure Modem.Works (d : Modem) : Prop where
  iter : d.netifIter = true
  set : ∀ g o, d.netapiSet g o = g.put o
  reads : ∀ a s, a.length = 8 → ColonHex a s → d.addrFromStr s = a

/-- Nothing is lost on the air. Of the frames that leave a radio that is on, the modem passes those on
its channel that are addressed to it in its PAN, and all on its channel in the promiscuous mode. What
it passes in the raw mode is left open. -/
def Modem.Filters (d : Modem) : Prop :=
  ∀ g f, g.rawmode = false → (d.passes g f = true ↔ f.result = .sent ∧ f.netif.state ≠ .off ∧
    f.netif.channel = g.channel ∧
    (g.promiscuousmode = true ∨ f.netif.nid = g.nid ∧ f.dst = g.addressLong))

/-- A modem that works and does nothing else. -/
def Modem.plain : Modem where
  netifIter := true
  addrFromStr := Driver.plain.addrFromStr
  netapiSet := Firmware.put
  passes g f := decide (f.result = .sent ∧ f.netif.state ≠ .off ∧ f.netif.channel = g.channel ∧
    (g.promiscuousmode = true ∨ f.netif.nid = g.nid ∧ f.dst = g.addressLong))

theorem Modem.plain_works : Modem.plain.Works :=
  ⟨rfl, fun _ _ => rfl, Driver.plain_readsAddresses⟩

theorem Modem.plain_filters : Modem.plain.Filters := fun _ _ _ => decide_eq_true_iff

namespace Firmware

/-- `cmd_net`, with `gnrc_pktdump_init`, which starts the dump unless it was started before. -/
def net (d : Modem) (g : Firmware) (argv : List (List UInt8)) : Firmware :=
  let g := (cmdNet d.addrFromStr d.netifIter argv).1.foldl d.netapiSet g
  if d.netifIter = true ∧ argv.length = 2 ∧ argv.getD 1 [] = ascii "pktdump" then
    { g with pktdump := true }
  else g

/-- A command of the shell, of which only `net` changes anything. -/
def command (d : Modem) (g : Firmware) (argv : List (List UInt8)) : Firmware :=
  if argv.head? = some (ascii "net") then g.net d argv else g

/-- The gateway prints a frame: the modem passes it on, and the dump has been started. -/
def Hears (d : Modem) (g : Firmware) (f : Frame) : Prop := d.passes g f = true ∧ g.pktdump = true

instance (d : Modem) (g : Firmware) (f : Frame) : Decidable (g.Hears d f) :=
  inferInstanceAs (Decidable (_ ∧ _))

end Firmware

/-- `shell_run`, which is not part of this repository: the commands that it makes of what is typed,
from the start of a line. -/
abbrev Shell := List UInt8 → List (List (List UInt8))

/-- A command as it is typed, with blanks between its words. -/
def typed (argv : List (List UInt8)) : List UInt8 := [byte ' '].intercalate argv ++ [byte '\n']

/-- A word without blanks, quotes and other characters that the shell treats in a special way. -/
def IsWord (w : List UInt8) : Prop := w ≠ [] ∧ ∀ b ∈ w, byte '0' ≤ b ∧ b ≤ byte 'z' ∧ b ≠ byte '\\'

instance (w : List UInt8) : Decidable (IsWord w) := inferInstanceAs (Decidable (_ ∧ _))

/-- The shell splits lines that fit its buffer into their words. -/
def Shell.Splits (shell : Shell) : Prop :=
  ∀ cmds, (∀ argv ∈ cmds, argv ≠ [] ∧ (typed argv).length ≤ 127 ∧ ∀ w ∈ argv, IsWord w) →
    shell (cmds.flatMap typed) = cmds

/-- A shell without anything but that. -/
def Shell.plain : Shell := fun bytes =>
  ((bytes.splitOn (byte '\n')).dropLast).map (·.splitOn (byte ' '))

theorem IsWord.notMem {w : List UInt8} (h : IsWord w) {b : UInt8} (hb : b < byte '0') : b ∉ w :=
  fun hmem => UInt8.lt_irrefl b (UInt8.lt_of_lt_of_le hb (h.2 b hmem).1)

theorem notMem_intercalate {b sep : UInt8} (hsep : b ≠ sep) {ws : List (List UInt8)}
    (hws : ∀ w ∈ ws, b ∉ w) : b ∉ [sep].intercalate ws := by
  induction ws with
  | nil => exact List.not_mem_nil
  | cons w ws ih =>
    obtain ⟨hw, hrest⟩ := List.forall_mem_cons.mp hws
    cases ws with
    | nil => simpa using hw
    | cons w' ws =>
      rw [List.intercalate_cons_cons, List.mem_append, List.mem_append, List.mem_singleton]
      rintro ((hb | hb) | hb)
      · exact hw hb
      · exact hsep hb
      · exact ih hrest hb

theorem Shell.plain_splits : Shell.plain.Splits := by
  intro cmds hcmds
  have hlines : (cmds.flatMap typed).splitOn (byte '\n') =
      cmds.map [byte ' '].intercalate ++ [[]] := by
    induction cmds with
    | nil => rfl
    | cons argv cmds ih =>
      obtain ⟨⟨-, -, hwords⟩, hcmds⟩ := List.forall_mem_cons.mp hcmds
      have hline : byte '\n' ∉ [byte ' '].intercalate argv :=
        notMem_intercalate (by decide) fun w hw => (hwords w hw).notMem (by decide)
      rw [List.flatMap_cons, typed, List.append_assoc, List.singleton_append,
        List.splitOn_append_cons_self_of_not_mem hline, ih hcmds]
      rfl
  have hwords : ∀ argv ∈ cmds, ([byte ' '].intercalate argv).splitOn (byte ' ') = argv := by
    intro argv hargv
    obtain ⟨hne, -, hwords⟩ := hcmds argv hargv
    exact List.splitOn_intercalate _ (fun w hw => (hwords w hw).notMem (by decide)) hne
  rw [plain, hlines, List.dropLast_concat, List.map_map]
  calc cmds.map ((·.splitOn (byte ' ')) ∘ [byte ' '].intercalate)
      = cmds.map id := List.map_congr_left hwords
    _ = cmds := List.map_id cmds

/-- What `serialworker` writes in front of its loop. -/
def hostSetup : List UInt8 :=
  ascii "net chan 11\n" ++ ascii "net pan 61453\n" ++
    ascii "net addr 00:00:00:00:00:00:00:01\n" ++ ascii "net pktdump\n"

/-- The commands in it. -/
def setupCommands : List (List (List UInt8)) :=
  [[ascii "net", ascii "chan", ascii "11"], [ascii "net", ascii "pan", ascii "61453"],
    [ascii "net", ascii "addr", ascii "00:00:00:00:00:00:00:01"], [ascii "net", ascii "pktdump"]]

theorem shell_hostSetup {shell : Shell} (hshell : shell.Splits) :
    shell hostSetup = setupCommands := by
  have htyped : hostSetup = setupCommands.flatMap typed := by decide +kernel
  rw [htyped]
  exact hshell setupCommands (by decide +kernel)

theorem colonHex_dstAddr : ColonHex dstAddr (ascii "00:00:00:00:00:00:00:01") :=
  colonHex_addressText 1

section
variable {d : Modem} (hd : d.Works) (g : Firmware)
include hd

/-- A command that makes one call of `gnrc_netapi_set`. -/
theorem command_of_cmdNet {argv : List (List UInt8)} {o : NetapiSet}
    (hnet : argv.head? = some (ascii "net")) (hlen : argv.length ≠ 2)
    (hcmd : (cmdNet d.addrFromStr true argv).1 = [o]) : g.command d argv = g.put o := by
  rw [Firmware.command, if_pos hnet, Firmware.net, hd.iter, hcmd]
  simp only [List.foldl_cons, List.foldl_nil, hd.set]
  exact if_neg fun h => hlen h.2.1

theorem command_chan : g.command d [ascii "net", ascii "chan", ascii "11"] =
    { g with channel := 11 } := by
  have hval : Int16.ofInt (atoi (ascii "11" ++ [0])) = 11 := by decide +kernel
  have hcmd : (cmdNet d.addrFromStr true [ascii "net", ascii "chan", ascii "11"]).1 =
      [.channel (Int16.ofInt (atoi (ascii "11" ++ [0])))] := rfl
  rw [hval] at hcmd
  exact command_of_cmdNet hd g rfl (by decide) hcmd

theorem command_pan : g.command d [ascii "net", ascii "pan", ascii "61453"] =
    { g with nid := Int16.ofNat 0xF00D } := by
  have hval : Int16.ofInt (atoi (ascii "61453" ++ [0])) = Int16.ofNat 0xF00D := by decide +kernel
  have hcmd : (cmdNet d.addrFromStr true [ascii "net", ascii "pan", ascii "61453"]).1 =
      [.nid (Int16.ofInt (atoi (ascii "61453" ++ [0])))] := rfl
  rw [hval] at hcmd
  exact command_of_cmdNet hd g rfl (by decide) hcmd

theorem command_addr :
    g.command d [ascii "net", ascii "addr", ascii "00:00:00:00:00:00:00:01"] =
      { g with addressLong := dstAddr } := by
  have haddr : d.addrFromStr (ascii "00:00:00:00:00:00:00:01") = dstAddr :=
    hd.reads _ _ rfl colonHex_dstAddr
  have hcmd : (cmdNet d.addrFromStr true
      [ascii "net", ascii "addr", ascii "00:00:00:00:00:00:00:01"]).1 =
      (let addr := d.addrFromStr (ascii "00:00:00:00:00:00:00:01")
      if addr.length = 0 then ([], 1) else ([NetapiSet.addressLong addr], 0)).1 := rfl
  rw [haddr] at hcmd
  exact command_of_cmdNet hd g rfl (by decide) hcmd

theorem command_pktdump : g.command d [ascii "net", ascii "pktdump"] = { g with pktdump := true } := by
  have hcmd : (cmdNet d.addrFromStr true [ascii "net", ascii "pktdump"]).1 = [] := rfl
  rw [Firmware.command, List.head?_cons, if_pos rfl, Firmware.net, hd.iter, hcmd]
  exact if_pos ⟨rfl, rfl, rfl⟩

/-- Whatever was set before, the gateway is on channel 11 in PAN 0xF00D with the address to which the
nodes send, and prints what it receives; the other options stay. -/
theorem firmware_of_hostSetup {shell : Shell} (hshell : shell.Splits) :
    (shell hostSetup).foldl (Firmware.command d) g = { g with
      channel := 11
      nid := Int16.ofNat 0xF00D
      addressLong := dstAddr
      pktdump := true } := by
  rw [shell_hostSetup hshell, setupCommands]
  simp only [List.foldl_cons, List.foldl_nil]
  rw [command_chan hd, command_pan hd, command_addr hd, command_pktdump hd]

end
end OflMotes.Gateway
