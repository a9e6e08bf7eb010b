import Famicom.Main
import Famicom.Proofs.Framing
import Famicom.Proofs.Mmc5Bus
import Famicom.Proofs.Mmc3Resume
import Famicom.Proofs.Split
import Famicom.Proofs.FrameSkip
import Famicom.Proofs.Loudness
import Famicom.Proofs.Reinsert
import Famicom.Proofs.Muting
import Famicom.Proofs.Hit
import Famicom.Proofs.Jam
import Famicom.Proofs.OutsideRom
import Famicom.Proofs.Serial
import Famicom.Proofs.Reload
import Famicom.Proofs.ReadPaths
import Famicom.Proofs.SettingsFile
import Famicom.Proofs.BackgroundPixels
import Famicom.Proofs.VerticalScroll
import Famicom.Proofs.HitEstimate
import Famicom.Proofs.LineCounters
import Famicom.Proofs.Mmc1Resume
import Famicom.Proofs.VrcPeriod
import Famicom.Proofs.Vrc3Counter
import Famicom.Proofs.TileLatch
import Famicom.Proofs.Mmc3Command
import Famicom.Proofs.BlockTransfer
import Famicom.Proofs.NoteLength
import Famicom.Proofs.FrameInterrupt
import Famicom.Proofs.InstructionCost
import Famicom.Proofs.CombinedOpcodes
import Famicom.Proofs.Nesting
import Famicom.Proofs.SpriteRows
import Famicom.Proofs.BankWindows
import Famicom.Proofs.DrawingBounds
import Famicom.Proofs.PaletteMarks
