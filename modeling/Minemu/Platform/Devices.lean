import Minemu.Lib.Memory

/-!
# Device registers of `platform.h`

Each device is the address of its first register; the offsets are those of the
register structures, in declaration order.
-/

namespace Minemu.Platform

open Minemu.Lib.Memory

/-! ## Interrupt controller -/

def interruptBase : Word := 0x10000000

def interruptPending : Word := interruptBase

def interruptEnable : Word := interruptBase + 4

def interruptClaimRegister : Word := interruptBase + 8

def interruptEoi : Word := interruptBase + 12

def interruptPriorityUart0 : Word := interruptBase + 20

def interruptPriorityUart1 : Word := interruptBase + 24

def irqSystick : Word := 0

def irqUart0 : Word := 1

def irqUart1 : Word := 2

def irqBlock : Word := 3

def irqNone : Word := 0xffffffff

/-! ## Timer -/

def systickBase : Word := 0x10001000

def systickPeriod : Word := systickBase

def systickControl : Word := systickBase + 4

def systickStatus : Word := systickBase + 8

def systickAckRegister : Word := systickBase + 12

def systickControlEnable : Word := 1

def systickControlPeriodic : Word := 2

def systickControlIrqEnable : Word := 4

def systickStatusPending : Word := 1

def systickAck : Word := 1

/-! ## Block controller -/

def blockBase : Word := 0x10002000

def blockCommand : Word := blockBase

def blockLba : Word := blockBase + 4

def blockSectorCount : Word := blockBase + 8

def blockDmaPaddr : Word := blockBase + 12

def blockStatus : Word := blockBase + 16

def blockError : Word := blockBase + 20

def blockAckRegister : Word := blockBase + 24

def blockControl : Word := blockBase + 28

def blockUnit : Word := blockBase + 32

def blockStatusBusy : Word := 1

def blockStatusComplete : Word := 2

def blockStatusError : Word := 4

def blockControlIrqEnable : Word := 1

def blockAck : Word := 1

def blockCommandRead : Word := 1

def blockCommandWrite : Word := 2

def blockErrorNone : Word := 0

def blockErrorNoMedia : Word := 1

def blockErrorBusy : Word := 2

def blockErrorInvalidCommand : Word := 3

def blockErrorInvalidDma : Word := 4

def blockErrorInvalidLba : Word := 5

def blockErrorInvalidUnit : Word := 7

def blockUnitFilesystem : Word := 0

def blockUnitSwap : Word := 1

/-! ## Random numbers -/

def rngBase : Word := 0x10003000

def rngSeed : Word := rngBase

def rngData : Word := rngBase + 4

def rngState : Word := rngBase + 8

/-! ## Serial ports -/

def uart0Base : Word := 0x10004000

def uart1Base : Word := 0x10005000

def uartRxData (uart : Word) : Word := uart

def uartTxData (uart : Word) : Word := uart + 4

def uartStatus (uart : Word) : Word := uart + 8

def uartControl (uart : Word) : Word := uart + 12

def uartStatusRxReady : Word := 1

def uartStatusTxReady : Word := 2

def uartControlRxIrqEnable : Word := 1

/-! ## Trace -/

def traceBase : Word := 0x1000f000

end Minemu.Platform
