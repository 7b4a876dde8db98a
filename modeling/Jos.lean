import Jos.Boot.Alloc
import Jos.Boot.FreeOrder
import Jos.Boot.Main
import Jos.Boot.Mp
import Jos.Boot.PageInit
import Jos.Boot.StartAps
import Jos.Console.Cputs
import Jos.Console.Input
import Jos.Console.Keyboard
import Jos.Console.Readline
import Jos.Console.Runcmd
import Jos.Console.Screen
import Jos.Debug.Eip
import Jos.Debug.EipCheck
import Jos.Debug.EipReads
import Jos.Debug.Stabs
import Jos.Debug.Turns
import Jos.Fmt.Counts
import Jos.Fmt.Escapes
import Jos.Fmt.Hosts
import Jos.Fmt.Items
import Jos.Fmt.Numbers
import Jos.Fmt.Printfmt
import Jos.Fmt.Sinks
import Jos.Kern.BootMap
import Jos.Kern.Env
import Jos.Kern.Icode
import Jos.Kern.Pmap
import Jos.Kern.State
import Jos.Kern.Syscall
import Jos.Kern.Trap
import Jos.Lib.Blit
import Jos.Lib.Bytes
import Jos.Lib.Chain
import Jos.Lib.Count
import Jos.Lib.EState
import Jos.Lib.Eager
import Jos.Lib.Fair
import Jos.Lib.Halves
import Jos.Lib.Numeral
import Jos.Lib.Ring
import Jos.Lib.Sieve
import Jos.Lib.Simulate
import Jos.Lib.Tails
import Jos.Lib.TwoLevel
import Jos.Mmu.Entry
import Jos.Mmu.Word
import Jos.Run.Boot
import Jos.Run.Coherent
import Jos.Run.Conserve
import Jos.Run.Dying
import Jos.Run.EnvIds
import Jos.Run.Fills
import Jos.Run.FlatMap
import Jos.Run.Image
import Jos.Run.Isolation
import Jos.Run.KernHalf
import Jos.Run.KernMap
import Jos.Run.LibIpc
import Jos.Run.Loading
import Jos.Run.Machine
import Jos.Run.Mailbox
import Jos.Run.MemInit
import Jos.Run.Mmio
import Jos.Run.Ops
import Jos.Run.ReadOnly
import Jos.Run.Sane
import Jos.Run.Share
import Jos.Run.Smp
import Jos.Run.Spinlock
import Jos.Run.Step
import Jos.Run.Tlb
import Jos.Run.Trace
import Jos.Run.Wrap
import Jos.Str.Memmove
import Jos.Str.Strings
import Jos.Str.Strtol
import Jos.Sys.AllocContract
import Jos.Sys.Authority
import Jos.Sys.Calls
import Jos.Sys.Choice
import Jos.Sys.Effects
import Jos.Sys.Failure
import Jos.Sys.Grants
import Jos.Sys.MapCalls
import Jos.Sys.MemCheck
import Jos.Sys.Outcome
import Jos.Sys.Perm
import Jos.Sys.Quiet
import Jos.Sys.Records
import Jos.Sys.Resolve
import Jos.Sys.Sched
import Jos.Sys.Touch
import Jos.Sys.Traps
import Jos.User.Fork
import Jos.User.ForkCalls
import Jos.User.ForkEager
import Jos.User.ForkInv
import Jos.User.ForkSteps
import Jos.User.Gates
import Jos.User.Overflow
import Jos.User.Primes
import Jos.User.Stubs
import Jos.User.Transparent
import Jos.User.Upcall
import Jos.Vm.Count
import Jos.Vm.Envs
import Jos.Vm.Map
import Jos.Vm.MapDir
import Jos.Vm.Moves
import Jos.Vm.Remap
import Jos.Vm.Take
import Jos.Vm.Teardown
import Jos.Vm.View
import Jos.Vm.Walk
