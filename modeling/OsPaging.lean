import OsPaging.Dev.Console
import OsPaging.Fs.BitmapSet
import OsPaging.Fs.KnownDevs
import OsPaging.Fs.Semfs
import OsPaging.Fs.SemfsListing
import OsPaging.Fs.SfsContents
import OsPaging.Fs.SfsRetry
import OsPaging.Fs.SfsSessions
import OsPaging.Proc.CallResults
import OsPaging.Proc.FileRelease
import OsPaging.Proc.Waitpid
import OsPaging.Sfsck.KernelVolumes
import OsPaging.Syscall.RunProgram
import OsPaging.Thread.Arrays
import OsPaging.Thread.Biglock
import OsPaging.Thread.Cv
import OsPaging.Thread.Migration
import OsPaging.User.MallocRuns
import OsPaging.User.Printf
import OsPaging.Vm.Allocations
import OsPaging.Vm.Boot
import OsPaging.Vm.KmallocHeap
import OsPaging.Vm.Objects
import OsPaging.Vm.Statistics
import OsPaging.Vm.Teardown
import OsPaging.Vm.VictimSearch
import OsPaging.Vm.Victims
