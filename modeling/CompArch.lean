import CompArch.Msi.Cache
import CompArch.Msi.Directory
import CompArch.Msi.Phase
import CompArch.Msi.Invariant
import CompArch.Msi.Safety
import CompArch.Msi.Values
import CompArch.Msi.Evictions
import CompArch.Msi.Deadlock
import CompArch.Msi.Quiescence
import CompArch.Msi.Requests
import CompArch.Msi.Sharers
import CompArch.Msi.Acks
import CompArch.Tomasulo.Correctness
import CompArch.Tomasulo.Structure
import CompArch.Tomasulo.Fetch
import CompArch.Tomasulo.Stamps
import CompArch.Tomasulo.Arbitration
import CompArch.Cache.Isolation
import CompArch.Cache.Lookup
import CompArch.Cache.Sweep
import CompArch.Cache.Stride
import CompArch.Cache.Bounds
import CompArch.Cache.Protect
import CompArch.Cache.Levels
import CompArch.Cache.History
import CompArch.Memory.Runs
import CompArch.Pisa.Unaligned
import CompArch.Pisa.Depends
import CompArch.Sim.Faults
import CompArch.Sim.Flat
import CompArch.Hazards.Q1
import CompArch.Hazards.Q2
import CompArch.Bpred.TwoLevel
import CompArch.Bpred.Folds
import CompArch.Bpred.Policy
import CompArch.Branch.Direction
import CompArch.Sim.Caches
import CompArch.Sim.Traffic
