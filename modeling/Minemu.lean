import Minemu.Context.DispatchStack
import Minemu.Context.Registers
import Minemu.Core.FromReset
import Minemu.Headless.Suite
import Minemu.Hello.EnterUser
import Minemu.Hello.EntryWord
import Minemu.Hello.FlatMemory
import Minemu.Hello.FromReset
import Minemu.Hello.ImageReads
import Minemu.Hello.Isolation
import Minemu.Hello.RomMap
import Minemu.Hello.UartPath
import Minemu.Runtime.Block
import Minemu.Runtime.Memory
import Minemu.Trap.Vectors
import Minemu.Hello.Output
import Minemu.Hello.Putchar
