import Amlogic.Unifykey.Proofs.ParseProofs
import Amlogic.Unifykey.Proofs.UnifykeyProofs
import Amlogic.Mmc.Proofs.CrashProofs
import Amlogic.CodecMm.Proofs.AccountingProofs
import Amlogic.CodecMm.Proofs.SlotTableProofs
import Amlogic.CodecMm.Proofs.ValidityProofs
import Amlogic.CodecMm.Proofs.InterleavingProofs
import Amlogic.CodecMem.Proofs.SharingProofs
import Amlogic.CodecMem.Proofs.CountProofs
import Amlogic.CodecMem.Proofs.SeparationProofs
import Amlogic.CodecMem.Proofs.SecmemProofs
import Amlogic.Canvas.Proofs.CanvasTableProofs
import Amlogic.Ge2d.Proofs.DmaBufProofs
import Amlogic.Keeper.Proofs.PassProofs
import Amlogic.Unifykey.Proofs.EfuseProofs
import Amlogic.Configs.Proofs.FormProofs
import Amlogic.Ge2d.Proofs.LifetimeProofs
import Amlogic.Ge2d.Proofs.MappingProofs
import Amlogic.Ge2d.Proofs.StartProofs
import Amlogic.Mmc.Proofs.TransferProofs
import Amlogic.Unifykey.Proofs.InitProofs
import Amlogic.Display.Proofs.HandleProofs
import Amlogic.Display.Proofs.DiscoveryProofs
import Amlogic.Display.Proofs.ModeProofs
import Amlogic.Display.Proofs.LayerProofs
import Amlogic.Display.Proofs.CompositionProofs
import Amlogic.Display.Proofs.FenceProofs
import Amlogic.Display.Proofs.GrallocProofs
import Amlogic.Display.Proofs.GrallocDeviceProofs
import Amlogic.Display.Proofs.VsyncProofs
import Amlogic.Unifykey.Proofs.KeyMapProofs
import Amlogic.Mmc.Proofs.DtbProofs
import Amlogic.Mmc.Proofs.PartTableProofs
import Amlogic.Mmc.Proofs.PartitionOpsProofs
import Amlogic.Unifykey.Proofs.TerminationProofs
import Amlogic.Ge2d.Proofs.ScalerProofs
import Amlogic.Ge2d.Proofs.RotationProofs
