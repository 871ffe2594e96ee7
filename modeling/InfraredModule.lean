import InfraredModule.Foundation.ReflectedCrc
import InfraredModule.Foundation.Program
import InfraredModule.Foundation.Debounce
import InfraredModule.Foundation.Ring
import InfraredModule.Foundation.Loop
import InfraredModule.Foundation.DigitalLine
import InfraredModule.Foundation.History
import InfraredModule.Foundation.Arena
import InfraredModule.Foundation.ClockedLine
import InfraredModule.Foundation.Simulation
import InfraredModule.Foundation.Overlay
import InfraredModule.Foundation.DigitalCircle
import InfraredModule.Foundation.Patch
import InfraredModule.Model.Data
import InfraredModule.Model.Main
import InfraredModule.Model.Module
import InfraredModule.Model.Firmware
import InfraredModule.Model.Display
import InfraredModule.Model.Uart
import InfraredModule.Model.System
import InfraredModule.Model.Button
import InfraredModule.Model.Serial
import InfraredModule.Model.Footprint
import InfraredModule.Model.Screen
import InfraredModule.Model.Memory
import InfraredModule.Model.HeapReplies
import InfraredModule.Model.Wire
import InfraredModule.Model.Board
import InfraredModule.Model.Line
import InfraredModule.Model.Flash
import InfraredModule.Model.Pages
import InfraredModule.Interface.RegisterMap
import InfraredModule.Interface.Menu
import InfraredModule.Interface.Panel
import InfraredModule.Analysis.HubCrc
import InfraredModule.Analysis.Effects
import InfraredModule.Analysis.Frames
import InfraredModule.Analysis.RegisterProtocol
import InfraredModule.Analysis.HubFrames
import InfraredModule.Analysis.Buffers
import InfraredModule.Analysis.Registration
import InfraredModule.Analysis.Persistence
import InfraredModule.Analysis.InfraredEvents
import InfraredModule.Analysis.LongPress
import InfraredModule.Analysis.PageWrites
import InfraredModule.Analysis.Control
import InfraredModule.Analysis.Menu
import InfraredModule.Analysis.Replies
import InfraredModule.Analysis.CodeFrames
import InfraredModule.Analysis.Buttons
import InfraredModule.Analysis.IoInput
import InfraredModule.Analysis.SerialDma
import InfraredModule.Analysis.ChipId
import InfraredModule.Analysis.Timers
import InfraredModule.Analysis.Framebuffer
import InfraredModule.Analysis.Lines
import InfraredModule.Analysis.Circles
import InfraredModule.Analysis.Texts
import InfraredModule.Analysis.StackTexts
import InfraredModule.Analysis.Memory
import InfraredModule.Analysis.HeapRuns
import InfraredModule.Analysis.HeapReplies
import InfraredModule.Analysis.PanelWire
import InfraredModule.Analysis.Board
import InfraredModule.Analysis.Line
import InfraredModule.Analysis.Flash
import InfraredModule.Analysis.Rings
import InfraredModule.Analysis.PageRuns
