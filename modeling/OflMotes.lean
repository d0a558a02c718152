import OflMotes.Lib.Framing
import OflMotes.Gateway.Strconv
import OflMotes.Gateway.DecodePacket
import OflMotes.Gateway.Serialworker
import OflMotes.Gateway.SerialDelivery
import OflMotes.Gateway.Pktdump
import OflMotes.Gateway.EndToEnd
import OflMotes.Gateway.Resync
import OflMotes.Gateway.Deliverable
import OflMotes.Node.Bme280
import OflMotes.Lib.Ring
import OflMotes.Lib.Run
import OflMotes.Node.Line
import OflMotes.Node.Teleinfo
import OflMotes.Node.MeterValue
import OflMotes.Node.Window
import OflMotes.Node.Provenance
import OflMotes.Node.Mixing
import OflMotes.Node.Messages
import OflMotes.Gateway.CmdNet
import OflMotes.Node.Grammar
import OflMotes.Gateway.Metricless
import OflMotes.Node.Terminated
import OflMotes.Gateway.Written
import OflMotes.Node.Handover
import OflMotes.Lib.Mailbox
import OflMotes.Node.Interleaving
import OflMotes.Node.Invented
import OflMotes.Lib.Loop
import OflMotes.Lib.Rendezvous
import OflMotes.Gateway.Myutils
import OflMotes.Gateway.Dumpers
import OflMotes.Gateway.Host
import OflMotes.Gateway.Database
import OflMotes.Node.Published
import OflMotes.Node.Radio
import OflMotes.Node.Station
import OflMotes.Node.OnAir
import OflMotes.Lib.Epochs
import OflMotes.Node.DutyCycle
import OflMotes.Node.Reader
import OflMotes.Node.Cycles
import OflMotes.Node.Metering
import OflMotes.Node.MoteDevice
import OflMotes.Node.MoteReader
import OflMotes.Node.MoteCycles
import OflMotes.Gateway.Firmware
import OflMotes.Lib.Parallel
import OflMotes.Node.Network
import OflMotes.Gateway.Timing
import OflMotes.Node.Agreement
