import Rpi4Kernel.Proofs.ContextSwitchSpec
import Rpi4Kernel.Proofs.KernelHeapSafety
import Rpi4Kernel.Proofs.OutOfMemorySpec
import Rpi4Kernel.Proofs.WrongFreeSpec
import Rpi4Kernel.Proofs.RemoveElementSpec
import Rpi4Kernel.Proofs.OneCoreSpec
import Rpi4Kernel.Proofs.SleepRequestSpec
import Rpi4Kernel.Proofs.CirclesSpec
import Rpi4Kernel.Proofs.LockWakeUpSpec
import Rpi4Kernel.Proofs.RescheduleSpec
import Rpi4Kernel.Proofs.PageTablesSpec
import Rpi4Kernel.Proofs.SleepClockSpec
import Rpi4Kernel.Proofs.SpinLocksSpec
import Rpi4Kernel.Proofs.ArraySlotsSpec
import Rpi4Kernel.Proofs.WakeUpPassSpec
import Rpi4Kernel.Proofs.SystemTimerSpec
import Rpi4Kernel.Proofs.VirtualSlotsSpec
import Rpi4Kernel.Proofs.GlobalKernelAllocSpec
import Rpi4Kernel.Proofs.HeapCountersSpec
import Rpi4Kernel.Proofs.ItoaSpec
import Rpi4Kernel.Proofs.ConsoleSpec
import Rpi4Kernel.Proofs.UartSpec
import Rpi4Kernel.Proofs.GpioSpec
import Rpi4Kernel.Proofs.GicSpec
import Rpi4Kernel.Proofs.DrawLineSpec
import Rpi4Kernel.Proofs.DrawCircleSpec
import Rpi4Kernel.Proofs.ScreenBoundsSpec
import Rpi4Kernel.Proofs.FsDriverSpec
import Rpi4Kernel.Proofs.AcknowledgeSpec
import Rpi4Kernel.Proofs.SizeClassesSpec
import Rpi4Kernel.Proofs.StatusCellsSpec
import Rpi4Kernel.Proofs.MemmoveSpec
import Rpi4Kernel.Proofs.BootAllocatorSpec
import Rpi4Kernel.Proofs.MetadataSpec
import Rpi4Kernel.Proofs.DriverManagerSpec
import Rpi4Kernel.Theory.Runs
import Rpi4Kernel.Proofs.LockRoutinesSpec
import Rpi4Kernel.Proofs.ChainLoaderSpec
import Rpi4Kernel.Proofs.BuddyBuffersSpec
import Rpi4Kernel.Proofs.BuddyVisitSpec
import Rpi4Kernel.Proofs.PrintingSpec
import Rpi4Kernel.Proofs.ReservationsSpec
import Rpi4Kernel.Proofs.CoreStartSpec
