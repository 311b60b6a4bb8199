import LcdInterface.Clocked.Run
import LcdInterface.Clocked.Sensitivity
import LcdInterface.Clocked.Server
import LcdInterface.Clocked.Handshake
import LcdInterface.Clocked.Requester
import LcdInterface.Clocked.Memory
import LcdInterface.StdLogic
import LcdInterface.Slave
import LcdInterface.Translator
import LcdInterface.AddressMap
import LcdInterface.LcdDriver.Model
import LcdInterface.LcdDriver.Edge
import LcdInterface.LcdDriver.Refinement
import LcdInterface.LcdDriver.Bus
import LcdInterface.LcdDriver.Alignment
import LcdInterface.LcdDriver.Delivery
import LcdInterface.LcdDriver.Boot
import LcdInterface.LcdDriver.Burst
import LcdInterface.LcdDriver.Strobe
import LcdInterface.LcdDriver.Counters
import LcdInterface.LcdDriver.BurstBuffer
import LcdInterface.LcdDriver.Pins
import LcdInterface.LcdDriver.Waveform
import LcdInterface.LcdDriver.History
import LcdInterface.LcdDriver.Simulation
import LcdInterface.LcdDriver.Panel
import LcdInterface.LcdDriver.System
import LcdInterface.LcdDriver.Interconnect
import LcdInterface.Software
import LcdInterface.Software.Main
import LcdInterface.Dma.Edge
import LcdInterface.Dma.ReadStrobe
import LcdInterface.Dma.Master
import LcdInterface.Dma.Registers
import LcdInterface.Dma.RegisterFile
import LcdInterface.Dma.Reads
import LcdInterface.Dma.Transfer
import LcdInterface.Dma.Go
import LcdInterface.Dma.Duration
import LcdInterface.Dma.System
import LcdInterface.Dma.Provenance
import LcdInterface.Dma.OneAccess
import LcdInterface.Dma.Simulation
import LcdInterface.Dma.Core
import LcdInterface.ParPort.Model
import LcdInterface.ParPort.Registers
import LcdInterface.ParPort.Pins
import LcdInterface.TimerDemo
import LcdInterface.TimerDemo.Exits
import LcdInterface.TimerDemo.Console
